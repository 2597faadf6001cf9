import ServiceModel.Proofs.Document.Verdicts
import ServiceModel.Proofs.Shape.Language

/-!
# The language of documents

What a document has to look like, said of the document and of its single definitions. These are
exactly the documents that are accepted. Every run that ends does so with a model or with an issue,
never with both or with neither.
-/
namespace ServiceModel

namespace Conforms
variable [Visiting]

/-- The fields of a document that conforms, where the last entry for each field counts. -/
structure DocumentFields (fields : Entries Value) : Prop where
  known : ∀ e ∈ fields, e.1 = .str "smithy" ∨ e.1 = .str "metadata" ∨ e.1 = .str "shapes"
  version : ∃ text, fields.field? "smithy" = some (.str text)
  metadata : ∀ v, fields.field? "metadata" = some v → ∃ ms, v.Lists ms ∧ ∀ e ∈ ms, e.1.IsText
  shapes : ∀ v, fields.field? "shapes" = some v → ∃ definitions, v.Lists definitions ∧
    Entries.distinct (definitions.map (·.1)) = true ∧
    ∀ e ∈ definitions, e.1.toValue.IsToken .absoluteId ∧
      ∃ shape, Shape.parse e.2 (Validation.place e) = ⟨[], .ok (some shape)⟩

def document (value : Value) : Prop :=
  ∃ listed, value.Lists listed ∧ DocumentFields (Entries.ofList listed)

end Conforms

/-! A document conforms exactly if it spells a model. -/

namespace Value

/-- What becomes a plain mapping lists entries, and its keys are texts if those are. -/
theorem HasPlain.exists_lists {v : Value} {ps : Entries Value} (h : v.HasPlain (.map ps)) :
    ∃ es, v.Lists es ∧ ((∀ e ∈ es, e.1.IsText) ↔ ∀ p ∈ ps, p.1.IsText) := by
  cases v with
  | scalar s => cases h
  | list items => simp [hasPlain_list_iff] at h
  | tuple items => simp [hasPlain_tuple_iff] at h
  | map es =>
    obtain ⟨qs, hq, he⟩ := hasPlain_map_iff.mp h
    cases he
    exact ⟨es, .map es, hq.forall_keys_iff Key.IsText⟩
  | frozen es =>
    obtain ⟨qs, hq, he⟩ := hasPlain_frozen_iff.mp h
    cases he
    exact ⟨es, .frozen es, hq.forall_keys_iff Key.IsText⟩
  | pairs items =>
    obtain ⟨es, qs, hk, hq, he⟩ := hasPlain_pairs_iff.mp h
    cases he
    exact ⟨es, .pairs hk, (hq.forall_keys_iff Key.IsText).trans
      Entries.forall_isText_ofList_iff.symm⟩

end Value

theorem Shape.parse_accepts_iff_defines [Visiting] {e : Key × Value} {shape : Shape} :
    Shape.parse e.2 (Validation.place e) = ⟨[], .ok (some shape)⟩ ↔ Model.Defines e.2 shape :=
  Shape.parse_eq_iff

namespace Conforms

theorem exists_metadata_iff {fields : Entries Value}
    (hw : ∀ e ∈ fields, e.2.isWellFormed = true) :
    (∃ metadata, Model.MetadataSpelledIn fields metadata) ↔
      ∀ v, fields.field? "metadata" = some v → ∃ ms, v.Lists ms ∧ ∀ e ∈ ms, e.1.IsText := by
  constructor
  · rintro ⟨metadata, h⟩ v hv
    obtain ⟨⟨-, p, hp, hfp⟩, ht⟩ := h.settles hv
    obtain ⟨ps, hps, rfl⟩ := Value.hasPlain_frozen_iff.mp hfp
    obtain ⟨ms, hl, hkeys⟩ := hp.exists_lists
    exact ⟨ms, hl, hkeys.mpr ((hps.forall_keys_iff Key.IsText).mp ht)⟩
  · intro h
    refine Model.exists_metadataSpelledIn fun v hf => ?_
    obtain ⟨ms, hl, ht⟩ := h v hf
    have hv := hw _ (Entries.mem_of_field? hf)
    obtain ⟨p, hp⟩ := Value.exists_hasPlain_of_isWellFormed hv
    obtain ⟨ps, rfl, hps⟩ := hl.exists_plain_ofList hv hp
    exact ⟨ps, hp, (hps.forall_keys_iff Key.IsText).mp (Entries.forall_isText_ofList_iff.mpr ht)⟩

theorem exists_shapes_iff [Visiting] {fields : Entries Value} :
    (∃ shapes, Model.ShapesSpelledIn fields shapes) ↔
      ∀ v, fields.field? "shapes" = some v → ∃ definitions, v.Lists definitions ∧
        Entries.distinct (definitions.map (·.1)) = true ∧
        ∀ e ∈ definitions, e.1.toValue.IsToken .absoluteId ∧
          ∃ shape, Shape.parse e.2 (Validation.place e) = ⟨[], .ok (some shape)⟩ := by
  simp only [Shape.parse_accepts_iff_defines, ← Entries.exists_spell_iff]
  constructor
  · rintro ⟨shapes, h⟩ v hv
    cases h with
    | absent hn =>
      rw [hn] at hv
      cases hv
    | present hv' hl hd hs =>
      obtain rfl := Option.some.inj (hv'.symm.trans hv)
      exact ⟨_, hl, hd, shapes, hs⟩
  · intro h
    cases hf : fields.field? "shapes" with
    | none => exact ⟨[], .absent hf⟩
    | some v =>
      obtain ⟨definitions, hl, hd, shapes, hs⟩ := h v hf
      exact ⟨shapes, .present hf hl hd hs⟩

theorem document_iff [Visiting] {value : Value} (hw : value.isWellFormed = true) :
    (∃ model : Model, model.SpelledBy value) ↔ document value := by
  constructor
  · rintro ⟨model, listed, hl, h⟩
    exact ⟨listed, hl, h.known, ⟨_, h.version⟩,
      (exists_metadata_iff (hl.isWellFormed_ofList hw)).mp ⟨_, h.metadata⟩,
      exists_shapes_iff.mp ⟨_, h.shapes⟩⟩
  · rintro ⟨listed, hl, h⟩
    obtain ⟨text, ht⟩ := h.version
    obtain ⟨metadata, hm⟩ := (exists_metadata_iff (hl.isWellFormed_ofList hw)).mpr h.metadata
    obtain ⟨shapes, hs⟩ := exists_shapes_iff.mpr h.shapes
    exact ⟨⟨text, metadata, shapes⟩, listed, hl, ht, hm, hs, h.known⟩

end Conforms

namespace Model
variable [Visiting]

/-- The definitions that are looked at parse into the shapes, one after another. -/
def ParsedFrom (document : Value) (shapes : List (AbsoluteId × Shape)) : Prop :=
  ∃ definitions, Validation.LooksAt document definitions ∧
    List.Forall₂ (fun e x => e.1 = .str x.1.text ∧
      Shape.parse e.2 (Validation.place e) = ⟨[], .ok (some x.2)⟩) definitions shapes

theorem SpelledBy.parsedFrom {document : Value} {model : Model} (h : model.SpelledBy document) :
    ParsedFrom document model.shapes := by
  obtain ⟨listed, hl, hm⟩ := h
  obtain ⟨definitions, hd, hdistinct, hs⟩ := Validation.shapesSpelledIn_iff.mp hm.shapes
  refine ⟨definitions, ⟨listed, hl, hd, hdistinct⟩, List.Forall₂.imp (fun e x he => ?_) hs⟩
  exact ⟨he.1, Shape.parse_accepts_iff_defines.mpr he.2.2⟩

end Model

theorem parseModel_of_verdict [Visiting] {settings : Settings} {document : Value}
    {verdict : Verdict}
    (h : (validate settings document).outcome = .ok verdict) : parseModel settings document =
      match verdict.model with
      | some model => .ok (.ok model)
      | none => .ok (.error verdict.issues) := by
  rw [parseModel, h, Fault.ok_bind]
  cases verdict.model <;> rfl

/-- Let a decoded document be such that no definition faults. Then every run on it ends, with a
model or with an issue and never with both, and it ends with a model exactly if the document
conforms. The model has the ids of the document for keys, in their order, each with the shape that
its definition parses into. A reader who asks for the model alone gets it, or else the issues. -/
theorem validate_accepts_iff_conforms [Visiting] {document : Value}
    (hw : document.isWellFormed = true) (h : Validation.EachParses document) :
    (∀ arrival settings, ∃ verdict,
      (validateWith arrival settings document).outcome = .ok verdict ∧
      (verdict.model.isSome = true ↔ verdict.issues = []) ∧
      (verdict.model.isSome = true ↔ Conforms.document document) ∧
      ∀ model, verdict.model = some model → Model.ParsedFrom document model.shapes) ∧
    ∀ settings,
      (∃ model, (validate settings document).outcome = .ok ⟨some model, []⟩ ∧
        parseModel settings document = .ok (.ok model)) ∨
      ∃ issues, issues ≠ [] ∧ (validate settings document).outcome = .ok ⟨none, issues⟩ ∧
        parseModel settings document = .ok (.error issues) := by
  refine ⟨fun arrival settings => ?_, fun settings => ?_⟩
  · obtain ⟨⟨found, issues⟩, hv, hdecided⟩ :=
      Validation.exists_verdict hw h arrival settings
    have spelled : ∀ model, found = some model → model.SpelledBy document := by
      rintro model rfl
      exact (validateWith_accepts_iff.mp hv).2
    refine ⟨_, hv, hdecided, ⟨fun hs => ?_, fun hc => ?_⟩, fun model hm => ?_⟩
    · obtain ⟨model, hm⟩ := Option.isSome_iff_exists.mp hs
      exact (Conforms.document_iff hw).mp ⟨model, spelled model hm⟩
    · obtain ⟨model, hm⟩ := (Conforms.document_iff hw).mpr hc
      have accepted : (validateWith arrival settings document).outcome = .ok ⟨some model, []⟩ :=
        validateWith_accepts_iff.mpr ⟨rfl, hm⟩
      obtain rfl := (Verdict.mk.inj (Except.ok.inj (hv.symm.trans accepted))).1
      rfl
    · exact (spelled model hm).parsedFrom
  · obtain ⟨⟨found, issues⟩, hv, hdecided⟩ :=
      Validation.exists_verdict hw h .inOrder settings
    have hv : (validate settings document).outcome = .ok ⟨found, issues⟩ := hv
    have parsed := parseModel_of_verdict hv
    cases found with
    | some model =>
      obtain rfl : issues = [] := hdecided.mp rfl
      exact .inl ⟨model, hv, parsed⟩
    | none => exact .inr ⟨issues, Verdict.decided_none_iff.mp hdecided, hv, parsed⟩

open scoped Visiting in
/-- A document that repeats its version and a key of its metadata. -/
theorem validate_accepts_iff_conforms_repeated : ∃ document : Value,
    document = .pairs [.tuple [.str "smithy", .str "1.0"], .tuple [.str "metadata",
      .pairs [.tuple [.str "a", .int 1], .tuple [.str "a", .int 2]]],
      .tuple [.str "smithy", .str "2.0"], .tuple [.str "shapes",
        .frozen [(.str "a#B", .map [(.str "type", .str "union"),
          (.str "members", .map [(.str "m", .map [(.str "target", .str "a#C")])])])]]] ∧
    document.isWellFormed = true ∧ Validation.EachParses document ∧ Conforms.document document ∧
    ∃ model, parseModel ⟨true, 2, "", ""⟩ document = .ok (.ok model) ∧
      Model.ParsedFrom document model.shapes := by
  refine ⟨_, rfl, by decide, ?_⟩
  generalize hd : Value.pairs _ = document
  have parsed : Shape.parse (.map [(.str "type", .str "union"),
      (.str "members", .map [(.str "m", .map [(.str "target", .str "a#C")])])])
      [.str "shapes", .str "a#B"] = ⟨[], .ok (some ⟨.union, [], [("members",
        .memberMap .readOnly [(.identifier ⟨"m"⟩, some ⟨⟨⟨"a#C"⟩⟩, []⟩)])]⟩)⟩ := rfl
  have each : Validation.EachParses document := by
    subst hd
    rintro definitions hl e he
    obtain rfl := hl.unique ⟨_, .pairs rfl, .frozen _, rfl⟩
    rw [List.mem_singleton.mp he]
    exact ⟨_, congrArg Traced.outcome parsed⟩
  have conforms : Conforms.document document := by
    subst hd
    refine ⟨_, .pairs rfl, by decide, ⟨"2.0", rfl⟩, ?_, ?_⟩
    · rintro _ ⟨⟩
      exact ⟨_, .pairs rfl, by simp [Key.IsText]⟩
    · rintro _ ⟨⟩
      refine ⟨_, .frozen _, rfl, fun e he => ?_⟩
      rw [List.mem_singleton.mp he]
      exact ⟨⟨"a#B", rfl, by decide⟩, _, parsed⟩
  obtain ⟨runs, -⟩ := validate_accepts_iff_conforms (by subst hd; decide) each
  obtain ⟨verdict, hv, -, hiff, hshapes⟩ := runs .inOrder ⟨true, 2, "", ""⟩
  obtain ⟨model, hm⟩ := Option.isSome_iff_exists.mp (hiff.mpr conforms)
  exact ⟨each, conforms, model, by rw [parseModel_of_verdict hv, hm], hshapes model hm⟩

end ServiceModel
