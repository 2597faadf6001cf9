import ServiceModel.Document.Definitions
import ServiceModel.Document.Envelope
import ServiceModel.Proofs.Runs
import ServiceModel.Proofs.Shape.Rules
import ServiceModel.Proofs.Value.Plain

/-!
# When the rules of a document are met

Shape ids are counted one after another, and a count passes one exactly if a key was there before.
Every complaint about the envelope becomes an issue. There is none if the version is a text, the
metadata become a mapping with texts for keys, the shapes are a mapping, and there is nothing else.
-/
namespace ServiceModel

namespace Definitions
variable {counts : Entries Nat}

def Once (counts : Entries Nat) : Prop := ∀ e ∈ counts, e.2 ≤ 1

def add (counts : Entries Nat) (key : Key) : Entries Nat :=
  counts.insert key ((counts.get? key).getD 0 + 1)

theorem pos_of_mem_add (hpos : ∀ e ∈ counts, 0 < e.2) (key : Key) :
    ∀ e ∈ add counts key, 0 < e.2 := by
  intro e he
  have hv := Entries.values_insert_subset counts key _ (List.mem_map_of_mem he)
  rcases List.mem_append.mp hv with hv | hv
  · obtain ⟨d, hd, heq⟩ := List.mem_map.mp hv
    rw [← heq]
    exact hpos d hd
  · rw [List.mem_singleton.mp hv]
    omega

theorem once_add_iff (hpos : ∀ e ∈ counts, 0 < e.2) (key : Key) :
    Once (add counts key) ↔ Once counts ∧ ∀ e ∈ counts, e.1.same key = false := by
  induction counts with
  | nil => simp [add, Entries.insert, Entries.get?, Once]
  | cons e rest ih =>
    obtain ⟨k, n⟩ := e
    obtain ⟨hn, hrest⟩ := List.forall_mem_cons.mp hpos
    cases hk : k.same key with
    | true =>
      have two : ¬ n + 1 ≤ 1 := by
        simp only at hn
        omega
      simp [add, Entries.insert, Entries.get?, Once, hk, two]
    | false =>
      have step : add ((k, n) :: rest) key = (k, n) :: add rest key := by
        simp [add, Entries.insert, Entries.get?, hk]
      have later := ih hrest
      unfold Once at later ⊢
      rw [step, List.forall_mem_cons, List.forall_mem_cons, List.forall_mem_cons, later]
      simp [hk, and_assoc]

theorem once_foldl_iff (keys : List Key) (counts : Entries Nat) (hpos : ∀ e ∈ counts, 0 < e.2) :
    Once (keys.foldl add counts) ↔ Once counts ∧ Entries.distinct keys = true ∧
      ∀ e ∈ counts, ∀ key ∈ keys, e.1.same key = false := by
  induction keys generalizing counts with
  | nil => simp [Entries.distinct]
  | cons key rest ih =>
    rw [List.foldl_cons, ih _ (pos_of_mem_add hpos key), once_add_iff hpos]
    have later : ∀ e ∈ counts, (∀ k ∈ key :: rest, e.1.same k = false) ↔
        e.1.same key = false ∧ ∀ k ∈ rest, e.1.same k = false := fun _ _ => List.forall_mem_cons
    simp only [Entries.distinct, Bool.and_eq_true, List.all_eq_true, Bool.not_eq_true']
    constructor
    · rintro ⟨⟨ho, hnew⟩, hd, hr⟩
      rw [add, Entries.insert_of_absent hnew] at hr
      refine ⟨ho, ⟨fun k hk => ?_, hd⟩, fun e he => (later e he).mpr ⟨hnew e he, fun k hk => ?_⟩⟩
      · exact hr _ (List.mem_append_right _ (List.mem_singleton_self _)) k hk
      · exact hr e (by simp [he]) k hk
    · rintro ⟨ho, ⟨hkey, hd⟩, hr⟩
      have hnew : ∀ e ∈ counts, e.1.same key = false := fun e he => ((later e he).mp (hr e he)).1
      refine ⟨⟨ho, hnew⟩, hd, ?_⟩
      rw [add, Entries.insert_of_absent hnew]
      intro e he k hk
      rcases List.mem_append.mp he with he | he
      · exact ((later e he).mp (hr e he)).2 k hk
      · rw [List.mem_singleton.mp he]
        exact hkey k hk

theorem repeatedIssues_eq_nil_iff {keys : List Key} :
    repeatedIssues keys = [] ↔ Entries.distinct keys = true := by
  have h := once_foldl_iff keys [] (by simp)
  simp only [Once, List.not_mem_nil, false_implies, implies_true, true_and, and_true] at h
  rw [← h]
  have same : keys.foldl add [] = Entries.count keys := rfl
  simp [repeatedIssues, List.filter_eq_nil_iff, same]

theorem collect_iff {shapes : Value} {path : Path} {es : Entries Value}
    (h : shapes.hasEntries = true) :
    collect shapes path = .ok (es, []) ↔
      shapes.Lists es ∧ Entries.distinct (es.map (·.1)) = true := by
  rw [← Value.items?_isSome] at h
  obtain ⟨items, hi⟩ := Option.isSome_iff_exists.mp h
  have parts : shapes.itemsOrParts = .ok items := by simp [Value.itemsOrParts, hi]
  simp only [collect, parts, Fault.bind_eq_ok_iff, Fault.pure_eq_ok_iff, Except.ok.injEq,
    exists_eq_left', Prod.mk.injEq, List.map_eq_nil_iff, repeatedIssues_eq_nil_iff, Value.lists_iff,
    hi, Option.some.injEq]
  constructor
  · rintro ⟨entries, hk, rfl, hd⟩
    rw [Entries.ofList_of_distinct entries hd]
    exact ⟨hk, hd⟩
  · rintro ⟨hk, hd⟩
    exact ⟨es, hk, Entries.ofList_of_distinct es hd, hd⟩

end Definitions

namespace Envelope

theorem view_eq_ok_iff {name : String} {value p : Value} (hn : name ≠ "shapes") :
    view (.str name) value = .ok p ↔ value.HasPlain p := by
  have hs : (Key.str name).same (.str "shapes") = false := by
    rw [← Bool.not_eq_true, Key.same_str_iff]
    simpa using hn
  simp [view, hs, Value.HasPlain]

theorem view_shapes_eq_map_iff {value : Value} :
    (∃ ps, view (.str "shapes") value = .ok (.map ps)) ↔ value.hasEntries = true := by
  have hs : (Key.str "shapes").same (.str "shapes") = true := Key.str_same_self _
  cases h : value.hasEntries with
  | true => simp [view, hs, h]
  | false =>
    simp only [view, hs, h, Bool.and_false, Bool.false_eq_true, if_false, iff_false, not_exists]
    intro ps hp
    rw [Value.HasPlain.hasEntries hp] at h
    cases h

/-- The rules of the envelope. One field is required, so no complaint is made twice. -/
def check : Check :=
  .record
    [("smithy", .ofType .string), ("metadata", .textKeyed), ("shapes", .ofType .object)]
    ["smithy"]

theorem says_schema [Visiting] : JsonSchema.Says schema check :=
  JsonSchema.says_closed (.cons ⟨rfl, JsonSchema.says_ofType .string⟩
    (.cons ⟨rfl, JsonSchema.says_textKeyed⟩ (.cons ⟨rfl, JsonSchema.says_ofType .object⟩ .nil)))
    "smithy"

theorem complaints_eq [Visiting] (document : Entries Value) : complaints document = (do
    let entries ← document.mapM fun (key, value) => do return (key, ← view key value)
    return check (.map entries)) := by
  have same (value : Value) : (schema.breaches value).flatMap (·.complaints) = check value :=
    says_schema value
  simp only [complaints, same]

theorem foldl_add_of_other {more : List Issue}
    (h : ∀ issue ∈ more, issue.kind ≠ .missingRequiredField) (issues : List Issue) :
    more.foldl add issues = issues ++ more := by
  induction more generalizing issues with
  | nil => exact (List.append_nil _).symm
  | cons issue rest ih =>
    obtain ⟨hi, hrest⟩ := List.forall_mem_cons.mp h
    rw [List.foldl_cons, add, if_neg fun hadd => hi hadd.1, ih hrest, List.append_assoc,
      List.singleton_append]

/-- A required field is missing only where nothing is said of it, so with one required field no
issue is passed over. -/
theorem foldl_add_record {fields : List (String × Check)} (name : String)
    (hkind : ∀ f ∈ fields, ∀ value, ∀ c ∈ f.2 value, c.finding.kind = .invalidValueType)
    (es : Entries Value) :
    ((Check.record fields [name] (.map es)).map Complaint.issue).foldl add [] =
      (Check.record fields [name] (.map es)).map Complaint.issue := by
  have other : ∀ issue ∈ (fields.flatMap fun f => Check.field es f.1 f.2).map Complaint.issue,
      issue.kind ≠ .missingRequiredField := by
    refine List.forall_mem_map.mpr fun c hc => ?_
    obtain ⟨f, hf, value, -, d, hd, rfl⟩ := Check.of_mem_fields hc
    change d.finding.kind ≠ _
    rw [hkind f hf value d hd]
    exact fun h => nomatch h
  have extra : ∀ issue ∈ (Check.unexpected (fields.map (·.1)) es).map Complaint.issue,
      issue.kind ≠ .missingRequiredField :=
    List.forall_mem_map.mpr (List.forall_mem_map.mpr fun _ _ h => nomatch h)
  rw [Check.record, List.map_append, List.map_append, List.foldl_append, List.foldl_append,
    foldl_add_of_other other, List.nil_append, foldl_add_of_other extra]
  refine congrArg (· ++ _) ?_
  cases hv : es.field? name with
  | some value => simp [Check.missing, hv]
  | none =>
    have missing : Check.missing [name] es = [.aboutField (.str name) (.fieldMissing name)] := by
      simp [Check.missing, hv]
    rw [missing]
    refine if_neg fun hadd => ?_
    obtain ⟨_, hi, hpath⟩ := List.any_eq_true.mp hadd.2
    obtain ⟨c, hc, rfl⟩ := List.mem_map.mp hi
    obtain ⟨f, -, value, hf, d, -, rfl⟩ := Check.of_mem_fields hc
    have path : .str f.1 :: (d.node ++ d.token) = [.str name] := Issue.field_equalAll_iff.mp hpath
    obtain ⟨hname, -⟩ := List.cons.inj path
    obtain rfl : f.1 = name := by simpa using hname
    rw [hv] at hf
    cases hf

theorem foldl_add_check (es : Entries Value) :
    ((check (.map es)).map Complaint.issue).foldl add [] =
      (check (.map es)).map Complaint.issue := by
  refine foldl_add_record "smithy" ?_ es
  refine List.forall_mem_cons.mpr ⟨fun _ _ => Check.kind_of_mem_ofType, ?_⟩
  exact List.forall_mem_cons.mpr ⟨fun _ _ => Check.kind_of_mem_textKeyed,
    List.forall_mem_singleton.mpr fun _ _ => Check.kind_of_mem_ofType⟩

theorem issues_eq_map [Visiting] (document : Entries Value) : issues document = (do
    return (← complaints document).map Complaint.issue) := by
  simp only [issues, complaints_eq, bind_assoc, pure_bind, foldl_add_check]

theorem issues_eq [Visiting] (document : Entries Value) : issues document = (do
    let entries ← document.mapM fun (key, value) => do return (key, ← view key value)
    return (check (.map entries)).map Complaint.issue) := by
  rw [issues_eq_map, complaints_eq, bind_assoc]
  rfl

/-- What the rules see are the fields of the document, one by one. -/
theorem pointwise_of_mapM {document viewed : Entries Value}
    (h : (document.mapM fun (key, value) => do return (key, ← view key value)) = .ok viewed) :
    Entries.PointwiseAt (fun key value p => view key value = .ok p) document viewed := by
  refine List.Forall₂.imp (fun e q he => ?_) (Fault.mapM_eq_ok_iff.mp h)
  obtain ⟨p, hp, hq⟩ := Fault.bind_eq_ok_iff.mp he
  rw [← Fault.pure_eq_ok_iff.mp hq]
  exact ⟨rfl, hp⟩

structure Accepts (document : Entries Value) : Prop where
  version : ∃ text, document.field? "smithy" = some (.str text)
  metadata : ∀ v, document.field? "metadata" = some v →
    ∃ ps, v.HasPlain (.map ps) ∧ ∀ e ∈ ps, e.1.IsText
  shapes : ∀ v, document.field? "shapes" = some v → v.hasEntries = true
  known : ∀ e ∈ document, e.1 = .str "smithy" ∨ e.1 = .str "metadata" ∨ e.1 = .str "shapes"

theorem check_eq_nil_iff {value : Value} :
    check value = [] ↔ ∃ es : Entries Value, value = .map es ∧
    (∃ text, es.field? "smithy" = some (.str text)) ∧
    (∀ v, es.field? "metadata" = some v → ∃ ps, v = .map ps ∧ ∀ e ∈ ps, e.1.IsText) ∧
    (∀ v, es.field? "shapes" = some v → ∃ ps, v = .map ps) ∧
    ∀ e ∈ es, e.1 = .str "smithy" ∨ e.1 = .str "metadata" ∨ e.1 = .str "shapes" := by
  simp only [check, Check.record_eq_nil_iff, List.mem_cons, List.not_mem_nil, or_false,
    forall_eq_or_imp, forall_eq, exists_eq_or_imp, exists_eq_left, Check.string_eq_nil_iff,
    Check.object_eq_nil_iff, Check.textKeyed_eq_nil_iff]
  constructor
  · rintro ⟨es, rfl, ⟨hs, hm, ho⟩, ⟨v, hv⟩, hk⟩
    obtain ⟨text, rfl⟩ := hs v hv
    exact ⟨es, rfl, ⟨text, hv⟩, hm, ho, hk⟩
  · rintro ⟨es, rfl, ⟨text, ht⟩, hm, ho, hk⟩
    exact ⟨es, rfl, ⟨fun v hv => ⟨text, Option.some.inj (hv.symm.trans ht)⟩, hm, ho⟩, ⟨_, ht⟩, hk⟩

section
variable [Visiting]

theorem complaints_eq_ok_iff {document : Entries Value} {found : List Complaint} :
    complaints document = .ok found ↔ ∃ viewed,
      (document.mapM fun (key, value) => do return (key, ← view key value)) = .ok viewed ∧
        check (.map viewed) = found := by
  rw [complaints_eq, Fault.bind_eq_ok_iff]
  simp only [Fault.pure_eq_ok_iff]

theorem issues_eq_ok_iff {document : Entries Value} {found : List Issue} :
    issues document = .ok found ↔ ∃ viewed,
      (document.mapM fun (key, value) => do return (key, ← view key value)) = .ok viewed ∧
        (check (.map viewed)).map Complaint.issue = found := by
  rw [issues_eq, Fault.bind_eq_ok_iff]
  simp only [Fault.pure_eq_ok_iff]

theorem issues_eq_ok_nil_iff {document : Entries Value} : issues document = .ok [] ↔
    ∃ ps, Entries.PointwiseAt (fun k v p => view k v = .ok p) document ps ∧
      check (.map ps) = [] := by
  simp only [issues_eq_ok_iff, Fault.bind_eq_ok_iff, Fault.mapM_eq_ok_iff, Fault.pure_eq_ok_iff,
    List.map_eq_nil_iff]
  have entry : ∀ (e q : Key × Value), (∃ p, view e.1 e.2 = .ok p ∧ (e.1, p) = q) ↔
      e.1 = q.1 ∧ view e.1 e.2 = .ok q.2 := by
    rintro ⟨k, v⟩ ⟨l, p⟩
    simp [and_comm]
  simp only [entry]
  rfl

theorem accepts_of_issues {document : Entries Value} (h : issues document = .ok []) :
    Accepts document := by
  obtain ⟨ps, hview, hc⟩ := issues_eq_ok_nil_iff.mp h
  obtain ⟨_, he, ⟨text, ht⟩, hm, hs, hk⟩ := check_eq_nil_iff.mp hc
  cases he
  refine ⟨?_, fun v hv => ?_, fun v hv => ?_, ?_⟩
  · obtain ⟨v, hv, hp⟩ := hview.field?_of_right ht
    obtain rfl := Value.hasPlain_scalar_iff.mp ((view_eq_ok_iff (by decide)).mp hp)
    exact ⟨text, hv⟩
  · obtain ⟨p, hp, hvp⟩ := hview.field?_of_left hv
    obtain ⟨qs, rfl, hq⟩ := hm p hp
    exact ⟨qs, (view_eq_ok_iff (by decide)).mp hvp, hq⟩
  · obtain ⟨p, hp, hvp⟩ := hview.field?_of_left hv
    obtain ⟨qs, rfl⟩ := hs p hp
    exact view_shapes_eq_map_iff.mp ⟨qs, hvp⟩
  · exact (hview.forall_keys_iff fun k =>
      k = .str "smithy" ∨ k = .str "metadata" ∨ k = .str "shapes").mpr hk

theorem issues_of_accepts {document : Entries Value}
    (hd : Entries.distinct (document.map (·.1)) = true) (h : Accepts document) :
    issues document = .ok [] := by
  obtain ⟨text, ht⟩ := h.version
  have viewed : ∀ e ∈ document, ∃ q : Key × Value, e.1 = q.1 ∧ view e.1 e.2 = .ok q.2 := by
    rintro ⟨k, v⟩ he
    rcases h.known _ he with hk | hk | hk <;> cases hk <;> have hv := Entries.field?_of_mem hd he
    · obtain rfl := Option.some.inj (ht.symm.trans hv)
      exact ⟨(_, .str text), rfl, (view_eq_ok_iff (by decide)).mpr rfl⟩
    · obtain ⟨ps, hp, -⟩ := h.metadata v hv
      exact ⟨(_, .map ps), rfl, (view_eq_ok_iff (by decide)).mpr hp⟩
    · obtain ⟨ps, hp⟩ := view_shapes_eq_map_iff.mpr (h.shapes v hv)
      exact ⟨(_, .map ps), rfl, hp⟩
  obtain ⟨ps, hview⟩ := List.Forall₂.of_forall_exists viewed
  have hview : Entries.PointwiseAt (fun k v p => view k v = .ok p) document ps := hview
  refine issues_eq_ok_nil_iff.mpr ⟨ps, hview, check_eq_nil_iff.mpr
    ⟨ps, rfl, ?_, fun p hp => ?_, fun p hp => ?_, ?_⟩⟩
  · obtain ⟨p, hp, hvp⟩ := hview.field?_of_left ht
    cases (view_eq_ok_iff (by decide)).mp hvp
    exact ⟨text, hp⟩
  · obtain ⟨v, hv, hvp⟩ := hview.field?_of_right hp
    obtain ⟨qs, hq, hk⟩ := h.metadata v hv
    obtain rfl := ((view_eq_ok_iff (by decide)).mp hvp).unique hq
    exact ⟨qs, rfl, hk⟩
  · obtain ⟨v, hv, hvp⟩ := hview.field?_of_right hp
    obtain ⟨qs, hq⟩ := view_shapes_eq_map_iff.mpr (h.shapes v hv)
    obtain rfl := Except.ok.inj (hvp.symm.trans hq)
    exact ⟨qs, rfl⟩
  · exact (hview.forall_keys_iff fun k =>
      k = .str "smithy" ∨ k = .str "metadata" ∨ k = .str "shapes").mp h.known

end

end Envelope

end ServiceModel
