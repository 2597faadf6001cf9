import ServiceModel.Proofs.Shape.Checks

/-!
# When the structural rules are met

For each rule, the values about which it has no complaint. Sorting the complaints and keeping the
first of each kind loses none of them altogether, so a definition without issues meets every rule.
-/
namespace ServiceModel

namespace Check
open JsonSchema (hasType)

theorem object_eq_nil_iff {value : Value} :
    ofType .object value = [] ↔ ∃ es, value = .map es := by
  rw [ofType_eq_nil_iff]
  cases value <;> simp [hasType]

theorem array_eq_nil_iff {value : Value} :
    ofType .array value = [] ↔ ∃ items, value = .list items := by
  rw [ofType_eq_nil_iff]
  cases value <;> simp [hasType]

theorem string_eq_nil_iff {value : Value} :
    ofType .string value = [] ↔ ∃ text, value = .str text := by
  rw [ofType_eq_nil_iff]
  rcases value with (_ | _ | _ | _ | _) | _ | _ | _ | _ | _ <;> simp [hasType]

theorem str?_eq_some_iff {value : Value} {text : String} :
    value.str? = some text ↔ value = .str text := by
  rcases value with (_ | _ | _ | _ | _) | _ | _ | _ | _ | _ <;> simp [Value.str?]

theorem tag_eq_nil_iff {expected : String} {value : Value} :
    tag expected value = [] ↔ value = .str expected := by
  rw [← str?_eq_some_iff]
  unfold tag
  split <;> simp_all

theorem field_eq_nil_iff {es : Entries Value} {name : String} {check : Check} :
    field es name check = [] ↔ ∀ value, es.field? name = some value → check value = [] := by
  unfold field
  split <;> simp_all

theorem record_of_noObject {fields : List (String × Check)} {required : List String} {value : Value}
    (h : ∀ es, value ≠ .map es) : record fields required value = ofType .object value := by
  cases value with
  | map es => exact absurd rfl (h es)
  | _ => rfl

theorem mapOf_of_noMap [Visiting] {check : Check} {value : Value} (h : ∀ es, value ≠ .map es) :
    mapOf check value = ofType .object value := by
  cases value with
  | map es => exact absurd rfl (h es)
  | _ => rfl

theorem textKeyed_of_noMap {value : Value} (h : ∀ es, value ≠ .map es) :
    textKeyed value = ofType .object value := by
  cases value with
  | map es => exact absurd rfl (h es)
  | _ => rfl

theorem mem_field_iff {es : Entries Value} {name : String} {check : Check} {c : Complaint} :
    c ∈ field es name check ↔
      ∃ value, es.field? name = some value ∧ ∃ d ∈ check value, d.under (.str name) = c := by
  unfold field
  cases es.field? name <;> simp

theorem missing_eq_nil_iff {required : List String} {es : Entries Value} :
    missing required es = [] ↔ ∀ name ∈ required, ∃ value, es.field? name = some value := by
  simp [missing, List.filter_eq_nil_iff, Option.ne_none_iff_exists']

theorem unexpected_eq_nil_iff {known : List String} {es : Entries Value} :
    unexpected known es = [] ↔ ∀ e ∈ es, ∃ name ∈ known, e.1 = .str name := by
  simp [unexpected, List.filter_eq_nil_iff, Key.same_str_iff]

/-- An object meets the rules of a record if its fields do, none that is required is missing, and
there are no others. -/
theorem record_eq_nil_iff {fields : List (String × Check)} {required : List String}
    {value : Value} : record fields required value = [] ↔ ∃ es : Entries Value, value = .map es ∧
      (∀ f ∈ fields, ∀ v, es.field? f.1 = some v → f.2 v = []) ∧
      (∀ name ∈ required, ∃ v, es.field? name = some v) ∧
      ∀ e ∈ es, ∃ f ∈ fields, e.1 = .str f.1 := by
  have other : (∀ es, value ≠ .map es) → ofType .object value ≠ [] := by
    intro h ho
    obtain ⟨es, rfl⟩ := object_eq_nil_iff.mp ho
    exact h es rfl
  cases value with
  | map es =>
    simp only [record, List.append_eq_nil_iff, List.flatMap_eq_nil_iff, field_eq_nil_iff,
      missing_eq_nil_iff, unexpected_eq_nil_iff, List.mem_map, exists_exists_and_eq_and, and_assoc,
      Value.map.injEq, exists_eq_left']
  | scalar s => simpa [record] using other (by simp)
  | list items => simpa [record] using other (by simp)
  | tuple items => simpa [record] using other (by simp)
  | frozen es => simpa [record] using other (by simp)
  | pairs items => simpa [record] using other (by simp)

theorem arrayOf_eq_nil_iff {check : Check} {value : Value} :
    arrayOf check value = [] ↔
      ∃ items, value = .list items ∧ ∀ item ∈ items, check item = [] := by
  by_cases h : ∃ items, value = .list items
  · obtain ⟨items, rfl⟩ := h
    simp only [arrayOf, List.flatMap_eq_nil_iff, List.map_eq_nil_iff, Prod.forall, Value.list.injEq,
      exists_eq_left']
    constructor
    · intro h item hi
      obtain ⟨n, hn⟩ := List.mem_iff_getElem?.mp hi
      exact h item n (List.mk_mem_zipIdx_iff_getElem?.mpr hn)
    · intro h item n hn
      exact h item (List.fst_mem_of_mem_zipIdx hn)
  · have ht : ofType .array value ≠ [] := fun ho => h (array_eq_nil_iff.mp ho)
    cases value <;> simp_all [arrayOf]

theorem mapOf_eq_nil_iff [Visiting] {check : Check} {value : Value} :
    mapOf check value = [] ↔ ∃ es, value = .map es ∧ ∀ e ∈ es, check e.2 = [] := by
  by_cases h : ∃ es, value = .map es
  · obtain ⟨es, rfl⟩ := h
    simp [mapOf, List.flatMap_eq_nil_iff, Visiting.mem_order_iff]
  · have ht : ofType .object value ≠ [] := fun ho => h (object_eq_nil_iff.mp ho)
    cases value <;> simp_all [mapOf]

/-- What is said of the fields of an object is said of a field that it has. -/
theorem of_mem_fields {fields : List (String × Check)} {es : Entries Value} {c : Complaint}
    (h : c ∈ fields.flatMap fun f => field es f.1 f.2) : ∃ f ∈ fields, ∃ value,
      es.field? f.1 = some value ∧ ∃ d ∈ f.2 value, c = d.under (.str f.1) := by
  obtain ⟨f, hf, hc⟩ := List.mem_flatMap.mp h
  unfold field at hc
  split at hc
  · rename_i value hv
    obtain ⟨d, hd, rfl⟩ := List.mem_map.mp hc
    exact ⟨f, hf, value, hv, d, hd, rfl⟩
  · cases hc

theorem kind_of_mem_ofType {type : DataType} {value : Value} {c : Complaint}
    (h : c ∈ ofType type value) : c.finding.kind = .invalidValueType := by
  unfold ofType at h
  split at h
  · cases h
  · rw [List.mem_singleton.mp h]
    rfl

theorem kind_of_mem_textKeyed {value : Value} {c : Complaint} (h : c ∈ textKeyed value) :
    c.finding.kind = .invalidValueType := by
  unfold textKeyed at h
  split at h
  · obtain ⟨key, -, hc⟩ := List.mem_flatMap.mp h
    exact kind_of_mem_ofType hc
  · exact kind_of_mem_ofType h

theorem textKeyed_eq_nil_iff {value : Value} :
    textKeyed value = [] ↔ ∃ es, value = .map es ∧ ∀ e ∈ es, e.1.IsText := by
  by_cases h : ∃ es, value = .map es
  · obtain ⟨es, rfl⟩ := h
    have text : ∀ key : Key, hasType .string key.toValue = true ↔ key.IsText := by
      rintro ((_ | _ | _ | _ | _) | keys) <;> simp [hasType, Key.toValue, Key.IsText]
    simp only [textKeyed, List.flatMap_eq_nil_iff, List.forall_mem_map, ite_eq_left_iff,
      List.cons_ne_nil, imp_false, not_not, text, Value.map.injEq, exists_eq_left']
  · have ht : ofType .object value ≠ [] := fun ho => h (object_eq_nil_iff.mp ho)
    cases value <;> simp_all [textKeyed]

theorem reference_eq_nil_iff {value : Value} :
    reference value = [] ↔ ∃ es : Entries Value, value = .map es ∧
      (∃ text, es.field? "target" = some (.str text)) ∧ ∀ e ∈ es, e.1 = .str "target" := by
  simp only [reference, record_eq_nil_iff, List.mem_singleton, forall_eq, exists_eq_left,
    string_eq_nil_iff]
  constructor
  · rintro ⟨es, rfl, hs, ⟨v, hv⟩, hk⟩
    obtain ⟨text, rfl⟩ := hs v hv
    exact ⟨es, rfl, ⟨text, hv⟩, hk⟩
  · rintro ⟨es, rfl, ⟨text, ht⟩, hk⟩
    exact ⟨es, rfl, fun v hv => ⟨text, Option.some.inj (hv.symm.trans ht)⟩, ⟨_, ht⟩, hk⟩

theorem member_eq_nil_iff {value : Value} :
    member value = [] ↔ ∃ es : Entries Value, value = .map es ∧
      (∃ text, es.field? "target" = some (.str text)) ∧
      (∀ v, es.field? "traits" = some v → ∃ ts, v = .map ts) ∧
      ∀ e ∈ es, e.1 = .str "target" ∨ e.1 = .str "traits" := by
  simp only [member, record_eq_nil_iff, List.mem_cons, List.not_mem_nil, or_false, forall_eq_or_imp,
    forall_eq, exists_eq_or_imp, exists_eq_left, string_eq_nil_iff, object_eq_nil_iff]
  constructor
  · rintro ⟨es, rfl, ⟨hs, ho⟩, ⟨v, hv⟩, hk⟩
    obtain ⟨text, rfl⟩ := hs v hv
    exact ⟨es, rfl, ⟨text, hv⟩, ho, hk⟩
  · rintro ⟨es, rfl, ⟨text, ht⟩, ho, hk⟩
    exact ⟨es, rfl, ⟨fun v hv => ⟨text, Option.some.inj (hv.symm.trans ht)⟩, ho⟩, ⟨_, ht⟩, hk⟩

end Check

namespace ShapeType
variable [Visiting]

theorem structuralIssues_eq_nil_iff {type : ShapeType} {node : Value} :
    type.structuralIssues node = [] ↔ Check.ofShapeType type node = [] := by
  rw [structuralIssues_eq, Issue.firsts_eq_nil_iff, List.map_eq_nil_iff, Complaint.ordered,
    Path.sortBy_eq_nil_iff]

theorem structuralIssuesAt_eq_nil_iff {type : ShapeType} {path : Path} {node : Value} :
    type.structuralIssuesAt path node = .ok [] ↔ Check.ofShapeType type node = [] := by
  rw [← structuralIssues_eq_nil_iff]
  unfold structuralIssuesAt
  cases type.structuralIssues node with
  | nil => simp
  | cons issue rest =>
    simp only [reduceCtorEq, iff_false]
    split <;> simp

end ShapeType

end ServiceModel
