import ServiceModel.Proofs.Document.Rules
import ServiceModel.Proofs.Document.Schedules

/-!
# Which documents are accepted

A document is accepted, whatever the settings and however the workers come in, exactly if it spells
a model: its last entry for each field counts, and those are a version, metadata that become a
mapping with texts for keys, and shapes under distinct absolute ids.
-/
namespace ServiceModel

namespace Model

inductive MetadataSpelledIn (es : Entries Value) : Entries Value → Prop
  | absent (h : es.field? "metadata" = none) : MetadataSpelledIn es []
  | present {value : Value} {metadata : Entries Value} (h : es.field? "metadata" = some value)
    (hs : value.Settles (.frozen metadata)) (ht : ∀ e ∈ metadata, e.1.IsText) :
    MetadataSpelledIn es metadata

theorem MetadataSpelledIn.settles {es metadata : Entries Value} (h : MetadataSpelledIn es metadata)
    {value : Value} (hv : es.field? "metadata" = some value) :
    value.Settles (.frozen metadata) ∧ ∀ e ∈ metadata, e.1.IsText := by
  cases h with
  | absent hn =>
    rw [hn] at hv
    cases hv
  | present hv' hs ht =>
    obtain rfl := Option.some.inj (hv'.symm.trans hv)
    exact ⟨hs, ht⟩

theorem exists_metadataSpelledIn {es : Entries Value} (h : ∀ v, es.field? "metadata" = some v →
    ∃ ps, v.HasPlain (.map ps) ∧ ∀ p ∈ ps, p.1.IsText) :
    ∃ metadata, MetadataSpelledIn es metadata := by
  cases hf : es.field? "metadata" with
  | none => exact ⟨[], .absent hf⟩
  | some v =>
    obtain ⟨ps, hp, ht⟩ := h v hf
    obtain ⟨f, hfixed, -⟩ := Value.exists_hasFixed (Value.isPlain_of_hasPlain hp)
    obtain ⟨fs, hfs, rfl⟩ := Value.hasFixed_map_iff.mp hfixed
    exact ⟨fs, .present hf (Value.settles_iff.mpr ⟨_, hp, hfixed⟩)
      ((Entries.PointwiseAt.forall_keys_iff hfs Key.IsText).mp ht)⟩

def Defines (definition : Value) (shape : Shape) : Prop :=
  (∃ plain, definition.HasPlain plain) ∧ shape.SpelledBy definition

inductive ShapesSpelledIn (es : Entries Value) : List (AbsoluteId × Shape) → Prop
  | absent (h : es.field? "shapes" = none) : ShapesSpelledIn es []
  | present {value : Value} {definitions : Entries Value} {shapes : List (AbsoluteId × Shape)}
    (h : es.field? "shapes" = some value) (hl : value.Lists definitions)
    (hd : Entries.distinct (definitions.map (·.1)) = true) (hs : definitions.Spell Defines shapes) :
    ShapesSpelledIn es shapes

structure SpelledIn (model : Model) (es : Entries Value) : Prop where
  version : es.field? "smithy" = some (.str model.version)
  metadata : MetadataSpelledIn es model.metadata
  shapes : ShapesSpelledIn es model.shapes
  known : ∀ e ∈ es, e.1 = .str "smithy" ∨ e.1 = .str "metadata" ∨ e.1 = .str "shapes"

def SpelledBy (model : Model) (document : Value) : Prop :=
  ∃ entries, document.Lists entries ∧ model.SpelledIn (Entries.ofList entries)

end Model

namespace Validation

theorem spell_of_passes [Visiting] {definitions : Entries Value} {outcomes : List Outcome}
    (h : List.Forall₂ Passes definitions outcomes) :
    definitions.Spell Model.Defines (typedShapes outcomes) := by
  induction h with
  | nil => exact .nil
  | cons hp _ ih =>
    obtain ⟨id, shape, hk, ha, hs, rfl⟩ := passes_iff.mp hp
    refine .cons ⟨?_, ?_, hs⟩ ih
    · rw [hk]
      rfl
    · rw [hk]
      exact ha

theorem exists_passes_of_spell [Visiting] {definitions : Entries Value}
    {shapes : List (AbsoluteId × Shape)} (h : definitions.Spell Model.Defines shapes) :
    ∃ outcomes, List.Forall₂ Passes definitions outcomes ∧ typedShapes outcomes = shapes := by
  induction h with
  | nil => exact ⟨[], .nil, rfl⟩
  | @cons e x _ _ he _ ih =>
    obtain ⟨hk, ha, hs⟩ := he
    obtain ⟨outcomes, hp, ht⟩ := ih
    refine ⟨_, .cons (passes_iff.mpr ⟨x.1, x.2, hk, ha, hs, rfl⟩) hp, ?_⟩
    rw [typedShapes, List.filterMap_cons, ← typedShapes, ht, hk]
    rfl

theorem fixedMetadata_eq_ok_iff {document metadata : Entries Value}
    (ha : Envelope.Accepts document) :
    fixedMetadata document = .ok metadata ↔ Model.MetadataSpelledIn document metadata := by
  cases hf : document.field? "metadata" with
  | none =>
    have empty : fixedMetadata document = .ok [] := by
      unfold fixedMetadata
      rw [hf]
      rfl
    rw [empty]
    constructor
    · intro h
      cases h
      exact .absent hf
    · rintro (_ | @⟨_, _, hv, -, -⟩)
      · rfl
      · rw [hf] at hv
        cases hv
  | some v =>
    obtain ⟨ps, hp, ht⟩ := ha.metadata v hf
    obtain ⟨f, hfixed, -⟩ := Value.exists_hasFixed (Value.isPlain_of_hasPlain hp)
    obtain ⟨fs, hfs, rfl⟩ := Value.hasFixed_map_iff.mp hfixed
    have read : fixedMetadata document = .ok fs := by
      have hp : v.toPlain = .ok (.map ps) := hp
      have hfixed : (Value.map ps).toFixed = .ok (.frozen fs) := hfixed
      simp [fixedMetadata, hf, hp, hfixed, bind, Except.bind, pure, Except.pure]
    rw [read, Except.ok.injEq]
    constructor
    · rintro rfl
      exact .present hf (Value.settles_iff.mpr ⟨_, hp, hfixed⟩)
        ((Entries.PointwiseAt.forall_keys_iff hfs Key.IsText).mp ht)
    · rintro (hn | @⟨_, _, hv, hs, -⟩)
      · rw [hf] at hn
        cases hn
      · obtain rfl := Option.some.inj (hf.symm.trans hv)
        obtain ⟨q, hq, hqf⟩ := Value.settles_iff.mp hs
        obtain rfl := hp.unique hq
        exact Value.frozen.inj (hfixed.unique hqf)

theorem conclude_iff {document : Entries Value} {envelope issues : List Issue}
    {outcomes : List Outcome} {model : Model} :
    (conclude document envelope outcomes).outcome = .ok ⟨some model, issues⟩ ↔
      issues = [] ∧ envelope = [] ∧ (∀ o ∈ outcomes, o.issues = []) ∧
      ∃ metadata, fixedMetadata document = .ok metadata ∧
        model = ⟨((document.field? "smithy").bind Value.str?).getD "", metadata,
          typedShapes outcomes⟩ := by
  unfold conclude
  dsimp only
  split
  · rename_i hi
    obtain ⟨henvelope, hempty⟩ := List.append_eq_nil_iff.mp (List.isEmpty_iff.mp hi)
    rw [List.flatMap_eq_nil_iff] at hempty
    constructor
    · intro h
      obtain ⟨metadata, hm, h⟩ := Traced.outcome_bind_eq_ok_iff.mp h
      obtain ⟨_, -, h⟩ := Traced.outcome_bind_eq_ok_iff.mp h
      cases Traced.outcome_pure_eq_ok_iff.mp h
      exact ⟨rfl, henvelope, hempty, metadata, hm, rfl⟩
    · rintro ⟨rfl, -, -, metadata, hm, rfl⟩
      exact Traced.outcome_bind_eq_ok_iff.mpr ⟨metadata, hm,
        Traced.outcome_bind_eq_ok_iff.mpr ⟨(), rfl, rfl⟩⟩
  · rename_i hi
    constructor
    · intro h
      obtain ⟨_, -, h⟩ := Traced.outcome_bind_eq_ok_iff.mp h
      cases Traced.outcome_pure_eq_ok_iff.mp h
    · rintro ⟨-, rfl, hempty, -⟩
      exact absurd (List.isEmpty_iff.mpr (List.flatMap_eq_nil_iff.mpr hempty)) hi

/-- Absent shapes are read as no shapes. -/
theorem shapesSpelledIn_iff {document : Entries Value} {shapes : List (AbsoluteId × Shape)} :
    Model.ShapesSpelledIn document shapes ↔ ∃ definitions,
      ((document.field? "shapes").getD (.map [])).Lists definitions ∧
      Entries.distinct (definitions.map (·.1)) = true ∧
      definitions.Spell Model.Defines shapes := by
  constructor
  · rintro (hn | ⟨hv, hl, hd, hs⟩)
    · rw [hn]
      exact ⟨[], .map [], rfl, .nil⟩
    · rw [hv]
      exact ⟨_, hl, hd, hs⟩
  · rintro ⟨definitions, hl, hd, hs⟩
    cases hf : document.field? "shapes" with
    | none =>
      rw [hf] at hl
      cases hl
      cases hs
      exact .absent hf
    | some v =>
      rw [hf] at hl
      exact .present hf hl hd hs

theorem accepts_of_spelledIn {document : Entries Value} {model : Model}
    (h : model.SpelledIn document) : Envelope.Accepts document := by
  refine ⟨⟨_, h.version⟩, fun v hv => ?_, fun v hv => ?_, h.known⟩
  · obtain ⟨⟨-, p, hp, hfp⟩, ht⟩ := h.metadata.settles hv
    obtain ⟨ps, hps, rfl⟩ := Value.hasPlain_frozen_iff.mp hfp
    exact ⟨ps, hp, (hps.forall_keys_iff Key.IsText).mp ht⟩
  · obtain ⟨definitions, hl, -⟩ := shapesSpelledIn_iff.mp h.shapes
    rw [hv] at hl
    exact hl.hasEntries

theorem fields_iff [Visiting] {settings : Settings} {arrival : Schedule} {document : Entries Value}
    {issues : List Issue} {model : Model} (hd : Entries.distinct (document.map (·.1)) = true) :
    (fields settings arrival document).outcome = .ok ⟨some model, issues⟩ ↔
      issues = [] ∧ model.SpelledIn document := by
  constructor
  · intro h
    obtain ⟨envelope, henvelope, h⟩ := Traced.outcome_bind_eq_ok_iff.mp h
    dsimp only at h
    split at h
    · cases Traced.outcome_pure_eq_ok_iff.mp h
    rename_i hraw
    obtain ⟨⟨definitions, repeated⟩, hcollect, h⟩ := Traced.outcome_bind_eq_ok_iff.mp h
    dsimp only at h
    split at h
    · rename_i hr
      rw [List.isEmpty_iff] at hr
      subst hr
      obtain ⟨outcomes, ho, h⟩ := Traced.outcome_bind_eq_ok_iff.mp h
      obtain ⟨rfl, rfl, hempty, metadata, hm, rfl⟩ := conclude_iff.mp h
      have ha := Envelope.accepts_of_issues henvelope
      obtain ⟨hl, hdistinct⟩ := (Definitions.collect_iff (by simpa using hraw)).mp hcollect
      have hs := spell_of_passes (shapes_pass_iff.mp ⟨ho, hempty⟩)
      obtain ⟨text, ht⟩ := ha.version
      refine ⟨rfl, ?_, (fixedMetadata_eq_ok_iff ha).mp hm,
        shapesSpelledIn_iff.mpr ⟨definitions, hl, hdistinct, hs⟩, ha.known⟩
      simp [ht, Value.str?]
    · obtain ⟨_, -, h⟩ := Traced.outcome_bind_eq_ok_iff.mp h
      cases Traced.outcome_pure_eq_ok_iff.mp h
  · rintro ⟨rfl, h⟩
    have ha := accepts_of_spelledIn h
    obtain ⟨definitions, hl, hdistinct, hs⟩ := shapesSpelledIn_iff.mp h.shapes
    have hraw := hl.hasEntries
    obtain ⟨outcomes, hp, hshapes⟩ := exists_passes_of_spell hs
    obtain ⟨ho, hempty⟩ : (shapes settings arrival definitions).outcome = .ok outcomes ∧ _ :=
      shapes_pass_iff.mpr hp
    have hcollect : Definitions.collect _ shapesPath = .ok (definitions, []) :=
      (Definitions.collect_iff hraw).mpr ⟨hl, hdistinct⟩
    refine Traced.outcome_bind_eq_ok_iff.mpr ⟨[], Envelope.issues_of_accepts hd ha, ?_⟩
    dsimp only
    rw [hraw, Bool.not_true, if_neg Bool.false_ne_true]
    refine Traced.outcome_bind_eq_ok_iff.mpr ⟨(definitions, []), hcollect, ?_⟩
    refine Traced.outcome_bind_eq_ok_iff.mpr ⟨outcomes, ho, ?_⟩
    refine conclude_iff.mpr ⟨rfl, rfl, hempty, _, (fixedMetadata_eq_ok_iff ha).mpr h.metadata, ?_⟩
    rw [h.version, hshapes]
    rfl

end Validation

/-- Acceptance does not depend on the settings or on the order in which workers come in. -/
theorem validateWith_accepts_iff [Visiting] {arrival : Schedule} {settings : Settings}
    {document : Value} {issues : List Issue} {model : Model} :
    (validateWith arrival settings document).outcome = .ok ⟨some model, issues⟩ ↔
      issues = [] ∧ model.SpelledBy document := by
  have hfields : ∀ entries : Entries Value,
      (Validation.fields settings arrival (Entries.ofList entries)).outcome =
        .ok ⟨some model, issues⟩ ↔ issues = [] ∧ model.SpelledIn (Entries.ofList entries) :=
    fun entries => Validation.fields_iff (Entries.distinct_ofList entries)
  constructor
  · intro h
    unfold validateWith at h
    split at h
    · cases Traced.outcome_pure_eq_ok_iff.mp h
    · rename_i items hi
      obtain ⟨entries, hk, h⟩ := Traced.outcome_bind_eq_ok_iff.mp h
      obtain ⟨hissues, hm⟩ := (hfields entries).mp h
      exact ⟨hissues, entries, Value.lists_iff.mpr ⟨items, hi, hk⟩, hm⟩
  · rintro ⟨rfl, entries, hl, hm⟩
    obtain ⟨items, hi, hk⟩ := Value.lists_iff.mp hl
    unfold validateWith
    rw [hi]
    exact Traced.outcome_bind_eq_ok_iff.mpr ⟨entries, hk, (hfields entries).mpr ⟨rfl, hm⟩⟩

end ServiceModel
