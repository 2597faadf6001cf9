import ServiceModel.Proofs.Document.Limited
import ServiceModel.Proofs.Placement

/-!
# Runs that end with a result

Every violation is reported as an issue: where pair lists keep to their places, no run on a document
faults, unless the document exceeds the limits of the machine. Those are not guarded against. A
value that is nested too deep and an integer with too many digits end the run with a fault, wherever
the value is walked through and the integer is written.
-/
namespace ServiceModel

/-! Values that exceed limits. -/

/-- A list that holds nothing but a list, and so on. -/
def Value.nested : Nat → Value
  | 0 => .list []
  | depth + 1 => .list [nested depth]

theorem Value.everyNode_nested {test : Value → Bool} (h : ∀ items, test (.list items) = true) :
    ∀ depth, (nested depth).everyNode test = true
  | 0 => (everyNode_list_iff []).mpr ⟨h [], fun _ hi => nomatch hi⟩
  | depth + 1 => (everyNode_list_iff [nested depth]).mpr
    ⟨h _, List.forall_mem_singleton.mpr (everyNode_nested h depth)⟩

theorem Limits.walkWith_nested {calls depth : Nat} (h : calls < 2 * (depth + 1)) :
    walkWith calls (.nested depth) = .error .nestedTooDeep := by
  induction depth generalizing calls with
  | zero =>
    obtain rfl | rfl : calls = 0 ∨ calls = 1 := by omega
    · rfl
    · rfl
  | succ depth ih =>
    match calls with
    | 0 => rfl
    | 1 => rfl
    | calls + 2 =>
      change (walkWith calls (.nested depth) >>= fun _ => pure ()) = _
      rw [ih (by omega)]
      rfl

/-- A one followed by zeros. -/
def Value.powerOfTen (zeros : Nat) : Value := .int (Nat.pow 10 zeros)

theorem Limits.write_powerOfTen {limits : Limits} {zeros : Nat} (hc : limits.calls ≠ 0)
    (h : limits.digits ≤ zeros) : limits.write (.powerOfTen zeros) = .error .integerTooLong := by
  obtain ⟨calls, hc⟩ := Nat.exists_eq_succ_of_ne_zero hc
  rw [write, hc]
  refine if_neg (Nat.not_lt.mpr ?_)
  rw [Int.natAbs_natCast]
  exact Nat.pow_le_pow_right (by decide) h

namespace Validation
variable [Visiting] {limits : Limits} {settings : Settings} {arrival : Schedule} {fault : Fault}

theorem fieldsEffort_of_walk {version value : Value} (hversion : limits.walk version = .ok ())
    (h : limits.walk value = .error fault) :
    fieldsEffort limits settings arrival [(.str "smithy", version), (.str "x", value)] =
      .error fault := by
  have walked : List.forM [(Key.str "smithy", version), (Key.str "x", value)] (fun e =>
      if e.1.same (.str "shapes") && e.2.hasEntries then .ok () else limits.walk e.2) =
      .error fault := by
    change (limits.walk version >>= fun _ => limits.walk value >>= fun _ => pure ()) = _
    rw [hversion, Fault.ok_bind, h, Fault.error_bind]
  rw [fieldsEffort, Envelope.effort, walked]
  rfl

theorem fieldsEffort_of_write {zeros : Nat} (hw : limits.walk (.powerOfTen zeros) = .ok ())
    (h : limits.write (.powerOfTen zeros) = .error fault) :
    fieldsEffort limits settings arrival [(.str "smithy", .powerOfTen zeros)] = .error fault := by
  have walked : List.forM [(Key.str "smithy", Value.powerOfTen zeros)] (fun e =>
      if e.1.same (.str "shapes") && e.2.hasEntries then .ok () else limits.walk e.2) =
      .ok () := by
    change (limits.walk (.powerOfTen zeros) >>= fun _ => pure ()) = _
    rw [hw, Fault.ok_bind]
    rfl
  have complained : Envelope.complaints [(.str "smithy", .powerOfTen zeros)] =
      .ok [⟨[.str "smithy"], [], .wrongType (.powerOfTen zeros) .string⟩] := rfl
  have written : List.forM [Value.powerOfTen zeros] limits.write = .error fault := by
    change (limits.write (.powerOfTen zeros) >>= fun _ => pure ()) = _
    rw [h, Fault.error_bind]
  rw [fieldsEffort, Envelope.effort, walked, Fault.ok_bind, complained, Fault.ok_bind]
  exact congrArg (· >>= _) written

end Validation

theorem validateLimited_of_effort [Visiting] {limits : Limits} {arrival : Schedule}
    {settings : Settings} {document : Value} {fault : Fault}
    (h : Validation.effort limits settings arrival document = .error fault) :
    (validateLimited limits arrival settings document).outcome = .error fault := by
  rw [validateLimited, Traced.outcome_bind, Traced.outcome_lift, h, Fault.error_bind]

/-- Let pair lists keep to their places. Then, limits apart, every run on a document ends with a
verdict, under all settings and however workers come in, and every definition is parsed to the end
at every path of keys. Limits that allow the document and the number of workers, or the definition
and its path, change nothing about the run. A draft that was read of a definition without structural
issues, wherever its pair lists stand, always has what its shape needs. -/
theorem never_faults [Visiting] :
    (∀ document : Value, document.isWellFormed = true → Placed.document document →
      ∀ arrival settings, ∃ verdict,
        (validateWith arrival settings document).outcome = .ok verdict ∧
        ∀ limits : Limits, limits.allows document = true →
          limits.write (.int settings.maxWorkers) = .ok () →
            validateLimited limits arrival settings document =
              validateWith arrival settings document) ∧
    (∀ node : Value, node.isWellFormed = true → Placed.definition node → ∀ path : Path,
      (∀ token ∈ path, ∃ key : Key, token = key.toValue) →
        ∃ found, (Shape.parse node path).outcome = .ok found ∧
        ∀ limits : Limits, limits.allows node = true → limits.write (.tuple path) = .ok () →
          Shape.parseLimited limits node path = Shape.parse node path) ∧
    ∀ (type : ShapeType) (es : Entries Value) (plain : Value) (draft : Draft),
      (Value.map es).HasPlain plain → type.structuralIssues plain = [] →
        (Draft.read type (.map es)).outcome = .ok draft → ∃ shape, draft.toShape = .ok shape := by
  refine ⟨fun document hw hp arrival settings => ?_, fun node hw hp path hpath => ?_,
    fun type es plain draft hp hi hr => ?_⟩
  · have parses := Validation.eachParses_of_placed hw hp
    obtain ⟨verdict, hv, -⟩ := Validation.exists_verdict hw parses arrival settings
    exact ⟨verdict, hv, fun limits allowed workers =>
      validateLimited_of_allows allowed workers hw parses arrival⟩
  · have ends := (Shape.parse_ends_iff hw hpath).mpr (Readable.definition_of_placed hp)
    obtain ⟨found, hf⟩ := ends
    exact ⟨found, hf, fun limits allowed written =>
      Shape.parseLimited_of_allows allowed written ⟨found, hf⟩⟩
  · obtain ⟨ps, hq, rfl⟩ := Value.hasPlain_map_iff.mp hp
    have hc := ShapeType.structuralIssues_eq_nil_iff.mp hi
    exact Draft.toShape_of_absent (Draft.absent?_eq_none hq hc hr)

open scoped Visiting in
/-- Pair lists at all their places at once, under the usual limits, and the smallest draft that
needs a field. -/
theorem never_faults_at_all_places : ∃ repeated node document : Value,
    repeated = .pairs [.tuple [.str "a", .int 1], .tuple [.str "a", .int 2]] ∧
    node = .map [(.str "type", .str "union"), (.str "members", .pairs
      [.tuple [.str "m", .map [(.str "target", .str "a#B"),
        (.str "traits", .map [(.str "a#t", repeated)])]], .tuple [.str "m", .null]])] ∧
    document = .pairs [.tuple [.str "smithy", .str "2.0"], .tuple [.str "smithy", .int 2],
      .tuple [.str "metadata", repeated],
      .tuple [.str "shapes", .pairs [.tuple [.str "a#U", node]]]] ∧
    node.isWellFormed = true ∧ Placed.definition node ∧
    document.isWellFormed = true ∧ Placed.document document ∧
    Limits.usual.allows document = true ∧ Limits.usual.allows node = true ∧
    (∃ verdict, (validateWith .reversed ⟨true, 2, "", ""⟩ document).outcome = .ok verdict) ∧
    validateLimited .usual .reversed ⟨true, 2, "", ""⟩ document =
      validateWith .reversed ⟨true, 2, "", ""⟩ document ∧
    (∃ found, (Shape.parse node [.str "", .int (-1)]).outcome = .ok found) ∧
    Shape.parseLimited .usual node [.str "", .int (-1)] =
      Shape.parse node [.str "", .int (-1)] ∧
    ∃ draft, (Draft.read .list (.map [(.str "type", .str "list"),
        (.str "member", .map [(.str "target", .str "a#B")])])).outcome = .ok draft ∧
      ∃ shape, draft.toShape = .ok shape := by
  refine ⟨_, _, _, rfl, rfl, rfl, ?_⟩
  obtain ⟨documents, nodes, drafts⟩ := never_faults
  have node : Placed.definition (.map [(.str "type", .str "union"), (.str "members", .pairs
      [.tuple [.str "m", .map [(.str "target", .str "a#B"), (.str "traits", .map [(.str "a#t",
        .pairs [.tuple [.str "a", .int 1], .tuple [.str "a", .int 2]])])]],
        .tuple [.str "m", .null]])]) := by
    refine .inr ⟨_, .inl rfl, List.forall_mem_cons.mpr ⟨.inl rfl, List.forall_mem_singleton.mpr
      (.inr (.inr (.inr ⟨rfl, .inr ⟨_, .pairs rfl, ?_⟩⟩)))⟩⟩
    refine List.forall_mem_cons.mpr ⟨.inr ⟨_, .inl rfl, ?_⟩,
      List.forall_mem_singleton.mpr (.inl rfl)⟩
    exact List.forall_mem_cons.mpr ⟨.inl rfl, List.forall_mem_singleton.mpr
      (.inr ⟨rfl, .inr ⟨_, .inl rfl⟩⟩)⟩
  have document : ∀ metadata definition : Value, Placed.definition definition →
      Placed.document (.pairs [.tuple [.str "smithy", .str "2.0"], .tuple [.str "smithy", .int 2],
        .tuple [.str "metadata", metadata],
        .tuple [.str "shapes", .pairs [.tuple [.str "a#U", definition]]]]) := by
    refine fun metadata definition h => .inr ⟨_, .pairs rfl, List.forall_mem_cons.mpr ⟨.inl rfl,
      List.forall_mem_cons.mpr ⟨.inl rfl, List.forall_mem_cons.mpr ⟨.inr (.inl rfl),
        List.forall_mem_singleton.mpr (.inr (.inr ⟨rfl, ?_⟩))⟩⟩⟩⟩
    exact .inr ⟨_, .pairs rfl, List.forall_mem_singleton.mpr h⟩
  obtain ⟨verdict, hv, within⟩ := documents _ (by decide) (document
    (.pairs [.tuple [.str "a", .int 1], .tuple [.str "a", .int 2]]) _ node) .reversed
    ⟨true, 2, "", ""⟩
  obtain ⟨found, hf, parsed⟩ := nodes _ (by decide) node [.str "", .int (-1)]
    (List.forall_mem_cons.mpr ⟨⟨.str "", rfl⟩, List.forall_mem_singleton.mpr ⟨.int (-1), rfl⟩⟩)
  exact ⟨by decide, node, by decide, document _ _ node, by decide +kernel, by decide +kernel,
    ⟨verdict, hv⟩, within .usual (by decide +kernel)
      (Limits.write_of_allows (by decide +kernel)), ⟨found, hf⟩,
    parsed .usual (by decide +kernel) (Limits.write_of_allows (by decide +kernel)),
    _, rfl, drafts .list [(.str "type", .str "list"), (.str "member", .map [(.str "target",
      .str "a#B")])] _ _ (Value.hasPlain_self (by decide)) (by decide) rfl⟩

open scoped Visiting in
/-- A field that the envelope does not know, whose value is nested too deep, and a version that is
an integer with too many digits. -/
theorem exceeded_limits_fault : ∃ deep long : Value,
    deep = .map [(.str "smithy", .str "2.0"), (.str "x", .nested 600)] ∧
    long = .map [(.str "smithy", .powerOfTen 5000)] ∧
    deep.isWellFormed = true ∧ Placed.document deep ∧
    (validateLimited .usual .inOrder .standard deep).outcome = .error .nestedTooDeep ∧
    long.isWellFormed = true ∧ Placed.document long ∧
    (validateLimited .usual .inOrder .standard long).outcome = .error .integerTooLong := by
  have walked : Limits.usual.walk (.nested 600) = .error .nestedTooDeep :=
    Limits.walkWith_nested (by decide)
  have written : Limits.usual.write (.powerOfTen 5000) = .error .integerTooLong :=
    Limits.write_powerOfTen (by decide) (by decide)
  have free : (Value.nested 600).isPairFree = true := Value.everyNode_nested (fun _ => rfl) 600
  have well : (Value.nested 600).isWellFormed = true := Value.everyNode_nested (fun _ => rfl) 600
  refine ⟨_, _, rfl, rfl, ?_, .inl ?_, ?_, rfl, .inl rfl, ?_⟩
  · exact (Value.everyNode_map_iff _).mpr ⟨by decide, List.forall_mem_cons.mpr
      ⟨rfl, List.forall_mem_singleton.mpr well⟩⟩
  · exact (Value.everyNode_map_iff _).mpr ⟨rfl, List.forall_mem_cons.mpr
      ⟨rfl, List.forall_mem_singleton.mpr free⟩⟩
  · refine validateLimited_of_effort ?_
    rw [Validation.effort_of_lists (.map _), Entries.ofList_of_distinct _ (by decide)]
    exact Validation.fieldsEffort_of_walk rfl walked
  · refine validateLimited_of_effort ?_
    rw [Validation.effort_of_lists (.map _), Entries.ofList_of_distinct _ (by decide)]
    exact Validation.fieldsEffort_of_write rfl written

end ServiceModel
