import ServiceModel.Proofs.Shape.Settled
import ServiceModel.Shape.Parse

/-!
# The fields of a definition

What the rules for a definition ask of its fields, and the contents of a shape field by field in the
order of the table.
-/
namespace ServiceModel

namespace Check
variable [Visiting]

theorem forall_mem_fields_iff {type : ShapeType} {P : String × Check → Prop} :
    (∀ f ∈ fields type, P f) ↔ P ("type", tag type.tag) ∧
      (type.allowsMixins = true → P ("mixins", arrayOf reference)) ∧
        ∀ f ∈ type.fields, P (f.name, ofKind f.kind) := by
  rw [fields]
  cases type.allowsMixins <;> simp [ofKind]

theorem exists_mem_fields_iff {type : ShapeType} {Q : String → Prop} :
    (∃ f ∈ fields type, Q f.1) ↔ ∃ name ∈ type.names, Q name := by
  rw [fields, ShapeType.names]
  cases type.allowsMixins <;> simp

theorem ofShapeType_eq_nil_iff {type : ShapeType} {value : Value} :
    ofShapeType type value = [] ↔ ∃ es : Entries Value, value = .map es ∧
      es.field? "type" = some (.str type.tag) ∧
      (∀ v, type.allowsMixins = true → es.field? "mixins" = some v → arrayOf reference v = []) ∧
      (∀ f ∈ type.fields, (∀ v, es.field? f.name = some v → ofKind f.kind v = []) ∧
        (f.required = true → ∃ v, es.field? f.name = some v)) ∧
      ∀ e ∈ es, ∃ name ∈ type.names, e.1 = .str name := by
  have required : ∀ {Q : String → Prop}, (∀ name ∈ "type" :: type.requiredFields, Q name) ↔
      Q "type" ∧ ∀ f ∈ type.fields, f.required = true → Q f.name := by
    intro Q
    rw [List.forall_mem_cons, ShapeType.requiredFields, List.forall_mem_map]
    simp only [List.mem_filter, and_imp]
  simp only [ofShapeType, record_eq_nil_iff, forall_mem_fields_iff, required, tag_eq_nil_iff]
  constructor
  · rintro ⟨es, rfl, ⟨ht, hm, hf⟩, ⟨⟨v, hv⟩, hr⟩, hk⟩
    obtain rfl := ht v hv
    exact ⟨es, rfl, hv, fun v ha => hm ha v, fun f h => ⟨hf f h, hr f h⟩,
      fun e he => exists_mem_fields_iff.mp (hk e he)⟩
  · rintro ⟨es, rfl, ht, hm, hf, hk⟩
    exact ⟨es, rfl, ⟨fun v hv => Option.some.inj (hv.symm.trans ht), fun ha v => hm v ha,
      fun f h => (hf f h).1⟩, ⟨⟨_, ht⟩, fun f h => (hf f h).2⟩, fun e he =>
        exists_mem_fields_iff.mpr (hk e he)⟩

end Check

namespace Shape

/-- Contents found in the order of the table are found by name. -/
theorem find?_fields {α : Type} {R : Field → Option (String × α) → Prop} {fields : List Field}
    {found : List (Option (String × α))} (hn : (fields.map (·.name)).Nodup)
    (named : ∀ f y, R f (some y) → y.1 = f.name) (h : List.Forall₂ R fields found) :
    List.Forall₂ (fun f x => R f x ∧ (found.filterMap id).find? (·.1 == f.name) = x)
      fields found := by
  induction h with
  | nil => exact .nil
  | @cons f x rest more hx hrest ih =>
    obtain ⟨hf, hr⟩ := List.nodup_cons.mp hn
    have other : ∀ g ∈ rest, f.name ≠ g.name := by
      intro g hg he
      exact hf (List.mem_map.mpr ⟨g, hg, he.symm⟩)
    cases x with
    | none =>
      have later : (more.filterMap id).find? (·.1 == f.name) = none := by
        rw [List.find?_eq_none]
        intro y hy he
        obtain ⟨_, ho, rfl⟩ := List.mem_filterMap.mp hy
        obtain ⟨g, hg, hR⟩ := hrest.exists_of_mem_right ho
        exact other g hg ((eq_of_beq he).symm.trans (named g y hR))
      refine .cons ⟨hx, ?_⟩ ?_
      · simpa using later
      · simpa using ih hr
    | some y =>
      have hy := named f y hx
      refine .cons ⟨hx, by simp [hy]⟩ ((ih hr).imp_of_mem fun g hg o _ hgo => ⟨hgo.1, ?_⟩)
      have hne : (y.1 == g.name) = false := by
        rw [beq_eq_false_iff_ne, hy]
        exact other g hg
      simpa [hne] using hgo.2

/-- The contents of a shape, field by field in the order of the table. -/
def FieldsSpelledIn (type : ShapeType) (es : Entries Value)
    (found : List (Option (String × Content))) : Prop :=
  List.Forall₂ (fun field x => ∃ o, x = o.map (fun c => (field.name, c)) ∧ field.SpelledIn es o)
    type.fields found

theorem nodup_fields (type : ShapeType) : (type.fields.map (·.name)).Nodup :=
  (List.nodup_append.mp (show ("type" :: _ ++ _).Nodup from type.nodup_names)).2.1

theorem spelledIn_of_fields {type : ShapeType} {mixins : List (Option Reference)}
    {es : Entries Value} {found : List (Option (String × Content))}
    (ht : es.field? "type" = some (.str type.tag))
    (hk : ∀ e ∈ es, ∃ name ∈ type.names, e.1 = .str name) (hm : MixinsSpelledIn es mixins)
    (hf : FieldsSpelledIn type es found) :
    (⟨type, mixins, found.filterMap id⟩ : Shape).SpelledIn es := by
  have named : ∀ (f : Field) (y : String × Content),
      (∃ o, some y = o.map (fun c => (f.name, c)) ∧ f.SpelledIn es o) → y.1 = f.name := by
    rintro f y ⟨o, ho, -⟩
    obtain ⟨c, -, rfl⟩ := Option.map_eq_some_iff.mp ho.symm
    rfl
  have lookup := find?_fields (nodup_fields type) named hf
  have field : List.Forall₂ (fun f x => ∃ o, x = o.map (fun c => (f.name, c)) ∧ f.SpelledIn es o ∧
      (⟨type, mixins, found.filterMap id⟩ : Shape).field? f.name = o) type.fields found := by
    refine lookup.imp ?_
    rintro f x ⟨⟨o, rfl, ho⟩, hx⟩
    refine ⟨o, rfl, ho, ?_⟩
    rw [Shape.field?, hx]
    cases o <;> rfl
  refine ⟨ht, hk, hm, fun f h => ?_, ?_⟩
  · obtain ⟨x, -, o, -, ho, hfo⟩ := field.exists_of_mem_left h
    rw [hfo]
    exact ho
  · have hx : found = type.fields.map fun f => ((⟨type, mixins, found.filterMap id⟩ : Shape).field?
        f.name).map fun c => (f.name, c) := by
      refine (field.flip.imp ?_).eq_map
      rintro x f ⟨o, rfl, -, hfo⟩
      rw [hfo]
    conv_lhs => rw [hx]
    rw [List.filterMap_map]
    rfl

theorem fieldsSpelledIn_of_spelledIn {shape : Shape} {es : Entries Value} (h : shape.SpelledIn es) :
    ∃ found, FieldsSpelledIn shape.type es found ∧ shape.fields = found.filterMap id := by
  refine ⟨shape.type.fields.map fun f => (shape.field? f.name).map fun c => (f.name, c), ?_, ?_⟩
  · rw [FieldsSpelledIn, List.forall₂_map_right_iff, List.forall₂_same]
    exact fun f hf => ⟨_, rfl, h.fields f hf⟩
  · rw [List.filterMap_map]
    exact h.ordered

end Shape

end ServiceModel
