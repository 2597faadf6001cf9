import ServiceModel.Proofs.Naming
import ServiceModel.Proofs.Placement
import ServiceModel.Proofs.Shape.Collecting
import ServiceModel.Proofs.Value.Reordered

/-!
# Readings at other places

Where a node stands shows in the paths of its issues and nowhere else. Issues are put in order by
the paths below the node and told apart by what is below it as well, and no message or value speaks
of the way to the node. So prolonging the path of a node prolongs the paths of its issues.
-/
namespace ServiceModel

namespace Collector
variable {α : Type}

/-- The same collector, seen from a node above, from which `path` leads to its shape's path. -/
def under (path : Path) (collector : Collector) : Collector :=
  ⟨path ++ collector.path, collector.issues.map (.under path)⟩

theorem take_under (p q : Path) (collector : Collector) (reading : Reading α) :
    (collector.under p).take (p ++ q) reading = Prod.map (under p) id (collector.take q reading) := by
  refine Prod.ext (congrArg (Collector.mk _) ?_) rfl
  change _ = (collector.issues ++ reading.trace.map (Issue.under q)).map (Issue.under p)
  rw [List.map_append, Issue.map_under_under]
  rfl

/-- Whether a shape is made depends on whether there are issues, not on where. -/
theorem finish_under (p : Path) (collector : Collector) (type : ShapeType) (node : Value) :
    (collector.under p).finish type node =
      Prod.map (under p) id (collector.finish type node) := by
  have taken := take_under p collector.path collector (Draft.read type node)
  -- One list of issues is the image of the other, so both are empty or neither is.
  have empty : ((collector.under p).take (p ++ collector.path)
      (Draft.read type node)).1.issues.isEmpty =
        (collector.take collector.path (Draft.read type node)).1.issues.isEmpty := by
    rw [taken]
    exact List.isEmpty_map
  have next : ((collector.under p).finish type node).1 = (collector.finish type node).1.under p :=
    congrArg Prod.fst taken
  exact Prod.ext next (bind_congr fun draft => if_congr (Bool.eq_iff_iff.mp empty) rfl rfl)

end Collector

namespace Shape
variable [Visiting] {p q : Path}

theorem structuralIssuesAt_under (hp : ∀ token ∈ p, Path.IsToken token)
    (hq : ∀ token ∈ q, Path.IsToken token) (type : ShapeType) (node : Value) :
    ∃ issues, type.structuralIssuesAt q node = .ok issues ∧
      type.structuralIssuesAt (p ++ q) node = .ok (issues.map (.under p)) := by
  have keys := Path.exists_key_of_tokens (List.forall_mem_append.mpr ⟨hp, hq⟩)
  refine ⟨_, structuralIssuesAt_of_keys type node (Path.exists_key_of_tokens hq), ?_⟩
  rw [structuralIssuesAt_of_keys type node keys, Issue.map_under_under]

theorem parse_under (hp : ∀ token ∈ p, Path.IsToken token)
    (hq : ∀ token ∈ q, Path.IsToken token) (node : Value) :
    parse node (p ++ q) = Reading.within p (parse node q) := by
  cases hc : classify node with
  | error fault =>
    rw [parse_of_fault hc, parse_of_fault hc]
    rfl
  | ok classified =>
    cases classified with
    | error issue =>
      rw [parse_of_refused hc, parse_of_refused hc]
      exact congrArg (fun issue => Traced.mk [issue] _) (Issue.under_under p q issue).symm
    | ok found =>
      obtain ⟨type, es⟩ := found
      cases hplain : (Value.map es).toPlain with
      | error fault =>
        rw [parse_of_plain_fault hc hplain, parse_of_plain_fault hc hplain]
        rfl
      | ok plain =>
        obtain ⟨issues, below, above⟩ := structuralIssuesAt_under hp hq type plain
        rw [parse_of_classified hc hplain below, parse_of_classified hc hplain above]
        have built := Collector.finish_under p ⟨q, issues⟩ type (.map es)
        exact congrArg (fun built => Traced.mk built.1.issues built.2) built

end Shape

namespace MemberNames

theorem check_under (policy : NamingPolicy) (members : Value) (p q : Path) :
    check policy members (p ++ q) = List.map (.under p) <$> check policy members q := by
  unfold check
  simp only [← Issue.map_under_under, map_bind, map_pure]

theorem check_ends (policy : NamingPolicy) {members : Value} (hm : members.isPairFree = true)
    (h : members.hasEntries = true) (path : Path) :
    ∃ issues, check policy members path = .ok issues := by
  cases members with
  | map es => exact ⟨_, check_eq (Reading.splitAll_eq_ok_iff.mpr (Value.keyedEntries_entry es))⟩
  | frozen es => exact ⟨_, check_eq (Reading.splitAll_eq_ok_iff.mpr (Value.keyedEntries_entry es))⟩
  | pairs items => cases hm
  | scalar s => cases s <;> cases h
  | list items => cases h
  | tuple items => cases h

end MemberNames

/-- At a prolonged path every node is read as at the path itself, but for the paths of the issues,
which are prolonged as well: the result is the same, and so are the number of the issues, their order,
kinds, messages and values. This holds of parsing, of the structural rules, of the names of members,
of the reader of each kind of field and of the build, and it holds of the readers that are handed whole
paths. Without pair lists all but the build end with a value, and the names of members do where the
node is a mapping. -/
theorem paths_prolonged [Visiting] (node : Value) {p q : Path}
    (hp : ∀ token ∈ p, Path.IsToken token) (hq : ∀ token ∈ q, Path.IsToken token) :
    Shape.parse node (p ++ q) =
      ⟨(Shape.parse node q).trace.map (.under p), (Shape.parse node q).outcome⟩ ∧
    (∀ type : ShapeType, ∃ issues, type.structuralIssuesAt q node = .ok issues ∧
      type.structuralIssuesAt (p ++ q) node = .ok (issues.map (.under p))) ∧
    (∀ policy, MemberNames.check policy node (p ++ q) =
      List.map (.under p) <$> MemberNames.check policy node q) ∧
    (∀ kind, ∃ issues, ∀ collector : Collector,
      collector.take q (Reading.content kind node) =
        (⟨collector.path, collector.issues ++ issues⟩, (Reading.content kind node).outcome) ∧
      collector.take (p ++ q) (Reading.content kind node) =
        (⟨collector.path, collector.issues ++ issues.map (.under p)⟩,
          (Reading.content kind node).outcome)) ∧
    (∀ type issues, Collector.finish ⟨p ++ q, issues.map (.under p)⟩ type node =
      Prod.map (Collector.under p) id (Collector.finish ⟨q, issues⟩ type node)) ∧
    (Collecting.Agrees node q ∧ Collecting.Agrees node (p ++ q)) ∧
    (node.Single → (∃ shape, (Shape.parse node q).outcome = .ok shape) ∧
      (∀ kind, ∃ content, (Reading.content kind node).outcome = .ok content) ∧
      (node.hasEntries = true →
        ∀ policy, ∃ issues, MemberNames.check policy node q = .ok issues)) := by
  have both := List.forall_mem_append.mpr ⟨hp, hq⟩
  refine ⟨Shape.parse_under hp hq node, fun type => Shape.structuralIssuesAt_under hp hq type node,
    fun policy => MemberNames.check_under policy node p q, fun kind => ?_,
    fun type issues => Collector.finish_under p ⟨q, issues⟩ type node,
    ⟨Collecting.agrees hq node, Collecting.agrees both node⟩,
    fun hs => ⟨?_, fun kind => ?_, fun hm policy => ?_⟩⟩
  · refine ⟨(Reading.content kind node).trace.map (.under q), fun collector => ⟨rfl, ?_⟩⟩
    rw [Issue.map_under_under]
    rfl
  · have readable := Readable.definition_of_placed (.inl hs.pairFree)
    exact (Shape.parse_ends_iff hs.wellFormed (Path.exists_key_of_tokens hq)).mpr readable
  · exact (Reading.content_ends_iff hs.wellFormed).mpr
      (Readable.content_of_isPairFree kind hs.pairFree)
  · exact MemberNames.check_ends policy hs.pairFree hm q

open scoped Visiting in
/-- Two issues of a list, and one of its keys taken for names, in a document further up. -/
theorem paths_prolonged_of_two : ∃ (node : Value) (p q : Path),
    node = .frozen [(.str "type", .str "list"), (.str "Type", .null),
      (.str "member", .map [(.str "target", .str "x")])] ∧
    p = [.str "models", .int 2] ∧ q = [.str "shapes", .str "a#B"] ∧
    (∀ token ∈ p, Path.IsToken token) ∧ (∀ token ∈ q, Path.IsToken token) ∧
    node.Single ∧ node.hasEntries = true ∧
    Shape.parse node q = ⟨[(Finding.fieldUnexpected (.str "Type")).issueAt (q ++ [.str "Type"]),
      (Finding.badToken ⟨.str "x", .absoluteId⟩).issueAt (q ++ [.str "member", .str "target"])],
      .ok none⟩ ∧
    (Shape.parse node (p ++ q)).trace = (Shape.parse node q).trace.map (.under p) ∧
    ∃ names, MemberNames.check ⟨true, false⟩ node q = .ok names ∧
      names = [(Finding.collidingMembers [.str "type", .str "Type"]).issueAt q] ∧
      MemberNames.check ⟨true, false⟩ node (p ++ q) = .ok (names.map (.under p)) := by
  have single : Value.Single (.frozen [(.str "type", .str "list"), (.str "Type", .null),
      (.str "member", .map [(.str "target", .str "x")])]) := ⟨rfl, by decide⟩
  have hp : ∀ token ∈ [Value.str "models", .int 2], Path.IsToken token :=
    List.forall_mem_cons.mpr ⟨.name _, List.forall_mem_singleton.mpr (.position _)⟩
  have hq : ∀ token ∈ [Value.str "shapes", .str "a#B"], Path.IsToken token :=
    List.forall_mem_cons.mpr ⟨.name _, List.forall_mem_singleton.mpr (.name _)⟩
  obtain ⟨parsed, -, names, -, -, -, ends⟩ := paths_prolonged _ hp hq
  obtain ⟨-, -, named⟩ := ends single
  obtain ⟨found, hfound⟩ := named rfl ⟨true, false⟩
  refine ⟨_, _, _, rfl, rfl, rfl, hp, hq, single, rfl, rfl, congrArg Traced.trace parsed, found,
    hfound, (Except.ok.inj hfound).symm, ?_⟩
  rw [names, hfound]
  rfl

end ServiceModel
