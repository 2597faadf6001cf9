import ServiceModel.Proofs.Shape.Acceptance
import ServiceModel.Proofs.Shape.Readable

/-!
# Definitions that are parsed to the end

In a decoded tree a definition is parsed to the end exactly if each place that is read by name
opens. Nothing after the readers can fault: the values of traits are plain when they are fixed, and
a draft without issues holds what its shape needs, since the structural rules have asked for it.
-/
namespace ServiceModel

namespace Reading
open Traced

/-- The values of traits are plain when they are read, so they can be fixed. -/
theorem isPlain_of_traitMap {value : Value} {xs : List (ShapeId × Value)}
    (h : (traitMap value).outcome = .ok (some xs)) : ∀ x ∈ xs, x.2.isPlain = true := by
  intro x hx
  obtain ⟨found, -, h⟩ := outcome_bind_eq_ok_iff.mp h
  cases found with
  | none => cases outcome_pure_eq_ok_iff.mp h
  | some es =>
    obtain ⟨os, hos, h⟩ := outcome_bind_eq_ok_iff.mp h
    obtain rfl := Option.some.inj (outcome_pure_eq_ok_iff.mp h)
    obtain ⟨o, ho, rfl⟩ := List.mem_filterMap.mp hx
    obtain ⟨e, -, he⟩ := (outcome_each_eq_ok_iff.mp hos).exists_of_mem_right ho
    obtain ⟨id, -, he⟩ := outcome_bind_eq_ok_iff.mp he
    cases id with
    | none => cases outcome_pure_eq_ok_iff.mp he
    | some id =>
      obtain ⟨p, hp, he⟩ := outcome_bind_eq_ok_iff.mp he
      cases outcome_pure_eq_ok_iff.mp he
      exact Value.isPlain_of_hasPlain hp

theorem exists_toFixed {kind : ContentKind} {value : Value} {c : Content}
    (h : (content kind value).outcome = .ok (some c)) : ∃ f, c.toFixed = .ok f := by
  have image : ∀ {α : Type} {r : Reading (Option α)} {g : α → Content},
      (Option.map g <$> r).outcome = .ok (some c) → ∃ a, r.outcome = .ok (some a) ∧ c = g a := by
    intro α r g h
    obtain ⟨o, ho, hc⟩ := outcome_map_eq_ok_iff.mp h
    obtain ⟨a, rfl, rfl⟩ := Option.map_eq_some_iff.mp hc.symm
    exact ⟨a, ho, rfl⟩
  cases kind with
  | text =>
    obtain ⟨s, -, rfl⟩ := Option.map_eq_some_iff.mp (outcome_pure_eq_ok_iff.mp h)
    exact ⟨_, rfl⟩
  | traitMap =>
    obtain ⟨xs, hxs, rfl⟩ := image (r := traitMap value) h
    have values := isPlain_of_traitMap hxs
    obtain ⟨fs, hfs⟩ := List.Forall₂.of_forall_exists
      (R := fun (x f : ShapeId × Value) => f.1 = x.1 ∧ x.2.HasFixed f.2) fun x hx => by
        obtain ⟨f, hf, -⟩ := Value.exists_hasFixed (values x hx)
        exact ⟨(x.1, f), rfl, hf⟩
    exact ⟨_, toFixed_traitMap_eq_ok_iff.mpr ⟨fs, rfl, hfs⟩⟩
  | reference =>
    obtain ⟨_, -, rfl⟩ := image (r := reference value) h
    exact ⟨_, rfl⟩
  | member =>
    obtain ⟨_, -, rfl⟩ := image (r := member value) h
    exact ⟨_, rfl⟩
  | references =>
    obtain ⟨_, -, rfl⟩ := image (r := references value) h
    exact ⟨_, rfl⟩
  | referenceMap =>
    obtain ⟨_, -, rfl⟩ := image (r := referenceMap value) h
    exact ⟨_, rfl⟩
  | memberMap policy =>
    obtain ⟨_, -, rfl⟩ := image (r := memberMap policy value) h
    exact ⟨_, rfl⟩
  | identifierMap =>
    obtain ⟨_, -, rfl⟩ := image (r := identifierMap value) h
    exact ⟨_, rfl⟩

end Reading

namespace Draft
open Traced
variable {type : ShapeType} {es : Entries Value}

theorem readField_ends_iff {field : Field} (hw : ∀ e ∈ es, e.2.isWellFormed = true) :
    (readField (.map es) field).Ends ↔
      ∀ v, es.field? field.name = some v → Readable.content field.kind v := by
  have look : Value.fieldOf? field.name (.map es) = .ok (es.field? field.name) := rfl
  unfold readField
  rw [look]
  cases hf : es.field? field.name with
  | none => exact iff_of_true ⟨none, rfl⟩ (by simp)
  | some v =>
    have value : ∀ P : Value → Prop, (∀ w, some v = some w → P w) ↔ P v := by simp
    rw [value, ← Reading.content_ends_iff (hw _ (Entries.mem_of_field? hf))]
    constructor
    · intro h
      obtain ⟨o, ho, h⟩ := ends_bind_iff.mp h
      obtain rfl := Except.ok.inj (ho : Except.ok (some v) = .ok o)
      obtain ⟨c, hc, -⟩ := ends_bind_iff.mp h
      exact ⟨c, hc⟩
    · intro h
      refine ends_bind_iff.mpr ⟨some v, rfl, ends_bind (ends_relabel_iff.mpr h) fun c hc => ?_⟩
      cases c with
      | none => exact ends_pure _
      | some c => exact ends_bind (Reading.exists_toFixed hc) fun _ _ => ends_pure _

/-- A field that is present is held under its name, whatever was read of it. -/
theorem exists_of_readField {field : Field} {v : Value} {x : Option (String × Option Content)}
    (hf : es.field? field.name = some v) (h : (readField (.map es) field).outcome = .ok x) :
    ∃ o, x = some (field.name, o) := by
  obtain ⟨o, ho, h⟩ := outcome_bind_eq_ok_iff.mp h
  obtain rfl : some v = o := hf.symm.trans (Except.ok.inj ho)
  obtain ⟨c, -, h⟩ := outcome_bind_eq_ok_iff.mp h
  cases c with
  | none => exact ⟨none, (outcome_pure_eq_ok_iff.mp h).symm⟩
  | some c =>
    obtain ⟨f, -, h⟩ := outcome_bind_eq_ok_iff.mp h
    exact ⟨some f, (outcome_pure_eq_ok_iff.mp h).symm⟩

theorem readMixins_ends_iff : (readMixins type (.map es)).Ends ↔
    (type.allowsMixins = true → ∀ v, es.field? "mixins" = some v → Readable.references v) := by
  have look : Value.fieldOf? "mixins" (.map es) = .ok (es.field? "mixins") := rfl
  unfold readMixins
  rw [look]
  cases type.allowsMixins with
  | false => exact iff_of_true ⟨[], rfl⟩ (by simp)
  | true =>
    cases es.field? "mixins" with
    | none => exact iff_of_true ⟨[], rfl⟩ (by simp)
    | some v =>
      have value : ∀ P : Value → Prop, (true = true → ∀ w, some v = some w → P w) ↔ P v := by simp
      rw [value, ← Reading.references_ends_iff]
      constructor
      · intro h
        obtain ⟨o, ho, h⟩ := ends_bind_iff.mp h
        obtain rfl := Except.ok.inj (ho : Except.ok (some v) = .ok o)
        obtain ⟨c, hc, -⟩ := ends_bind_iff.mp h
        exact ⟨c, hc⟩
      · exact fun h => ends_bind_iff.mpr ⟨some v, rfl, ends_bind (ends_relabel_iff.mpr h)
          fun _ _ => ends_pure _⟩

theorem read_ends_iff (hw : ∀ e ∈ es, e.2.isWellFormed = true) :
    (read type (.map es)).Ends ↔ Readable.Fields type es := by
  constructor
  · intro h
    obtain ⟨mixins, hm, h⟩ := ends_bind_iff.mp h
    obtain ⟨fields, hf, -⟩ := ends_bind_iff.mp h
    exact ⟨readMixins_ends_iff.mp ⟨mixins, hm⟩, fun f hmem =>
      (readField_ends_iff hw).mp (ends_each_iff.mp ⟨fields, hf⟩ f hmem)⟩
  · intro h
    refine ends_bind (readMixins_ends_iff.mpr h.mixins) fun _ _ => ?_
    refine ends_bind (ends_each_iff.mpr fun f hmem => ?_) fun _ _ => ends_pure _
    exact (readField_ends_iff hw).mpr (h.contents f hmem)

/-- A definition that meets the structural rules gives a draft with every required field. -/
theorem absent?_eq_none [Visiting] {ps : Entries Value} {draft : Draft}
    (hq : Entries.Pointwise Value.HasPlain es ps) (hc : Check.ofShapeType type (.map ps) = [])
    (h : (read type (.map es)).outcome = .ok draft) : draft.absent? = none := by
  obtain ⟨_, hps, -, -, hfields, -⟩ := Check.ofShapeType_eq_nil_iff.mp hc
  cases hps
  obtain ⟨mixins, -, h⟩ := outcome_bind_eq_ok_iff.mp h
  obtain ⟨found, hfound, h⟩ := outcome_bind_eq_ok_iff.mp h
  obtain rfl := outcome_pure_eq_ok_iff.mp h
  refine List.find?_eq_none.mpr fun name hn => ?_
  obtain ⟨f, hmem, rfl⟩ := List.mem_map.mp hn
  obtain ⟨hfield, hr⟩ := List.mem_filter.mp hmem
  obtain ⟨p, hp⟩ := (hfields f hfield).2 hr
  obtain ⟨v, hv, -⟩ := hq.field?_of_right hp
  obtain ⟨x, hx, hread⟩ := (outcome_each_eq_ok_iff.mp hfound).exists_of_mem_left hfield
  obtain ⟨o, rfl⟩ := exists_of_readField hv hread
  have held : (f.name, o) ∈ found.filterMap id := List.mem_filterMap.mpr ⟨_, hx, rfl⟩
  simp only [Bool.not_eq_true, Bool.not_eq_false', List.any_eq_true]
  exact ⟨_, held, beq_self_eq_true _⟩

theorem toShape_of_absent {draft : Draft} (h : draft.absent? = none) :
    ∃ shape, draft.toShape = .ok shape := by
  unfold toShape
  rw [h]
  exact ⟨_, rfl⟩

end Draft

namespace Shape
open Traced

theorem classify_ends_iff {node : Value} : (∃ found, classify node = .ok found) ↔ node.Opens := by
  unfold classify
  simp only [Fault.bind_eq_ok_iff]
  constructor
  · rintro ⟨_, found, hf, -⟩
    exact ⟨found, hf⟩
  · rintro ⟨found, hf⟩
    cases found with
    | none => exact ⟨_, none, hf, rfl⟩
    | some es =>
      refine exists_comm.mp ⟨some es, exists_and_left.mpr ⟨hf, ?_⟩⟩
      dsimp only
      split
      · exact ⟨_, rfl⟩
      · split <;> exact ⟨_, rfl⟩

section
variable [Visiting]

theorem structuralIssuesAt_of_keys (type : ShapeType) {path : Path} (plain : Value)
    (hpath : ∀ token ∈ path, ∃ key : Key, token = key.toValue) :
    type.structuralIssuesAt path plain = .ok ((type.structuralIssues plain).map (.under path)) := by
  have keys : path.all (·.toKey?.isSome) = true := by
    rw [List.all_eq_true]
    intro token ht
    obtain ⟨key, rfl⟩ := hpath token ht
    rw [toKey_toValue]
    rfl
  exact if_pos (by rw [keys, Bool.or_true])

theorem structuralIssuesAt_ends (type : ShapeType) {path : Path} (plain : Value)
    (hpath : ∀ token ∈ path, ∃ key : Key, token = key.toValue) :
    ∃ issues, type.structuralIssuesAt path plain = .ok issues :=
  ⟨_, structuralIssuesAt_of_keys type plain hpath⟩

/-- A definition is parsed to the end exactly if the places that are read by name open. -/
theorem parse_ends_iff {node : Value} {path : Path} (hw : node.isWellFormed = true)
    (hpath : ∀ token ∈ path, ∃ key : Key, token = key.toValue) :
    (parse node path).Ends ↔ Readable.definition node := by
  have classified : ∀ {type es}, classify node = .ok (.ok (type, es)) →
      ((parse node path).Ends ↔ Readable.Fields type es) := by
    intro type es hc
    obtain ⟨hm, ht⟩ := classify_eq_ok_iff.mp hc
    have well : ∀ e ∈ es, e.2.isWellFormed = true := hm.lists.isWellFormed hw
    obtain ⟨ps, hq⟩ := Entries.Pointwise.of_forall_exists fun e he =>
      Value.exists_hasPlain_of_isWellFormed (well e he)
    obtain ⟨issues, hi⟩ := structuralIssuesAt_ends type (.map ps) hpath
    rw [parse_of_classified hc (Value.hasPlain_map_iff.mpr ⟨ps, hq, rfl⟩) hi,
      ← Draft.read_ends_iff well]
    constructor
    · rintro ⟨shape, hs⟩
      obtain ⟨draft, hd, -⟩ := Fault.bind_eq_ok_iff.mp hs
      exact ⟨draft, hd⟩
    · rintro ⟨draft, hd⟩
      let issues' := issues ++ (Draft.read type (.map es)).trace.map (.under path)
      by_cases hempty : issues'.isEmpty = true
      · obtain ⟨rfl, -⟩ := List.append_eq_nil_iff.mp (List.isEmpty_iff.mp hempty)
        have hc := ShapeType.structuralIssuesAt_eq_nil_iff.mp hi
        obtain ⟨shape, hs⟩ := Draft.toShape_of_absent (Draft.absent?_eq_none hq hc hd)
        exact ⟨some shape, Fault.bind_eq_ok_iff.mpr ⟨draft, hd, (if_pos hempty).trans
          (Fault.bind_eq_ok_iff.mpr ⟨shape, hs, rfl⟩)⟩⟩
      · exact ⟨none, Fault.bind_eq_ok_iff.mpr ⟨draft, hd, if_neg hempty⟩⟩
  constructor
  · intro h
    refine ⟨?_, fun type es hc => (classified hc).mp h⟩
    obtain ⟨found, hf, -⟩ := ends_bind_iff.mp h
    exact classify_ends_iff.mp ⟨found, hf⟩
  · rintro ⟨hopens, hfields⟩
    obtain ⟨found, hf⟩ := classify_ends_iff.mpr hopens
    cases found with
    | error issue =>
      exact ends_bind_iff.mpr ⟨_, hf, ends_bind (ends_emit _) fun _ _ => ends_pure _⟩
    | ok found => exact (classified hf).mpr (hfields _ _ hf)

end

end Shape

end ServiceModel
