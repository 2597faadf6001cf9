import ServiceModel.Proofs.Document.Outcomes

/-!
# Runs that end with a verdict

On a decoded document the rules of the envelope and the collection of the definitions always end, so
a run can only fault in a definition. If none of them does, there is a verdict, and it has a model
exactly if it has no issue. This holds on each of the ways a run can end: with a document that is no
mapping, with shapes that are none, with ids that are repeated, and after all that was looked at.
-/
namespace ServiceModel

/-- There is a model exactly if there is no issue. -/
def Verdict.Decided (verdict : Verdict) : Prop := verdict.model.isSome = true ↔ verdict.issues = []

theorem Verdict.decided_none_iff {issues : List Issue} :
    Verdict.Decided ⟨none, issues⟩ ↔ issues ≠ [] := by
  simp [Verdict.Decided]

theorem Envelope.exists_issues_of_viewed [Visiting] {document : Entries Value}
    (h : ∀ e ∈ document, ∃ p, view e.1 e.2 = .ok p) :
    ∃ issues, Envelope.issues document = .ok issues := by
  have viewed : ∀ e ∈ document, ∃ q,
      (do return (e.1, ← view e.1 e.2)) = Except.ok (ε := Fault) q := by
    intro e he
    obtain ⟨p, hp⟩ := h e he
    exact ⟨(e.1, p), by rw [hp]; rfl⟩
  obtain ⟨qs, hq⟩ := List.Forall₂.of_forall_exists viewed
  exact ⟨_, issues_eq_ok_iff.mpr ⟨qs, Fault.mapM_eq_ok_iff.mpr hq, rfl⟩⟩

theorem Envelope.exists_issues [Visiting] {document : Entries Value}
    (hw : ∀ e ∈ document, e.2.isWellFormed = true) :
    ∃ issues, Envelope.issues document = .ok issues := by
  refine exists_issues_of_viewed fun e he => ?_
  unfold view
  split
  · exact ⟨_, rfl⟩
  · exact Value.exists_hasPlain_of_isWellFormed (hw e he)

theorem Definitions.collect_of_lists {shapes : Value} {es : Entries Value} (h : shapes.Lists es)
    (path : Path) : collect shapes path =
      .ok (Entries.ofList es, (repeatedIssues (es.map (·.1))).map (.under path)) := by
  obtain ⟨items, hi, hk⟩ := Value.lists_iff.mp h
  have parts : shapes.itemsOrParts = .ok items := by simp [Value.itemsOrParts, hi]
  rw [collect, parts, Fault.ok_bind, hk]
  rfl

namespace Validation
variable {settings : Settings} {arrival : Schedule}

theorem fields_of_repeated [Visiting] {document definitions : Entries Value}
    (h : ((document.field? "shapes").getD (.map [])).Lists definitions)
    (hr : Definitions.repeatedIssues (definitions.map (·.1)) ≠ []) :
    (fields settings arrival document).outcome = (do
      let envelope ← Envelope.issues document
      return ⟨none, envelope ++
        (Definitions.repeatedIssues (definitions.map (·.1))).map (.under shapesPath)⟩) := by
  rw [fields, Traced.outcome_bind, Traced.outcome_lift]
  refine congrArg _ (funext fun envelope => ?_)
  dsimp only
  rw [h.hasEntries, Bool.not_true, if_neg Bool.false_ne_true, Traced.outcome_bind,
    Traced.outcome_lift, Definitions.collect_of_lists h, Fault.ok_bind]
  dsimp only
  rw [if_neg (by simpa using hr)]
  rfl

theorem exists_conclude {document : Entries Value} {envelope : List Issue} {outcomes : List Outcome}
    (ha : envelope = [] → Envelope.Accepts document) : ∃ verdict,
      (conclude document envelope outcomes).outcome = .ok verdict ∧ verdict.Decided := by
  by_cases h : envelope ++ outcomes.flatMap (·.issues) = []
  · obtain ⟨he, ho⟩ := List.append_eq_nil_iff.mp h
    obtain ⟨metadata, hm⟩ := Model.exists_metadataSpelledIn (ha he).metadata
    have hm := (fixedMetadata_eq_ok_iff (ha he)).mpr hm
    exact ⟨_, conclude_iff.mpr ⟨rfl, he, List.flatMap_eq_nil_iff.mp ho, metadata, hm, rfl⟩,
      by simp [Verdict.Decided]⟩
  · exact ⟨_, conclude_eq_none_iff.mpr ⟨rfl, h⟩, Verdict.decided_none_iff.mpr h⟩

theorem exists_fields [Visiting] {document : Entries Value}
    (hw : ∀ e ∈ document, e.2.isWellFormed = true)
    (hp : ∀ definitions, ((document.field? "shapes").getD (.map [])).Lists definitions →
      Entries.distinct (definitions.map (·.1)) = true → ∀ e ∈ definitions,
        ∃ found, (Shape.parse e.2 (place e)).outcome = .ok found) :
    ∃ verdict, (fields settings arrival document).outcome = .ok verdict ∧ verdict.Decided := by
  obtain ⟨envelope, he⟩ := Envelope.exists_issues hw
  have ha : envelope = [] → Envelope.Accepts document := by
    rintro rfl
    exact Envelope.accepts_of_issues he
  have raw_field : (document.field? "shapes").getD (.map []) = .map [] ∨
      document.field? "shapes" = some ((document.field? "shapes").getD (.map [])) := by
    cases document.field? "shapes" with
    | none => exact .inl rfl
    | some v => exact .inr rfl
  cases hentries : ((document.field? "shapes").getD (.map [])).hasEntries with
  | false =>
    rw [fields_of_not_hasEntries hentries, he, Fault.ok_bind]
    refine ⟨_, rfl, Verdict.decided_none_iff.mpr fun hnil => ?_⟩
    rcases raw_field with hnone | hf
    · rw [hnone] at hentries
      cases hentries
    · rw [(ha hnil).shapes _ hf] at hentries
      cases hentries
  | true =>
    have hwell : ((document.field? "shapes").getD (.map [])).isWellFormed = true := by
      rcases raw_field with hnone | hf
      · rw [hnone]
        rfl
      · exact hw _ (Entries.mem_of_field? hf)
    obtain ⟨definitions, hl⟩ := Value.exists_lists_of_isWellFormed hwell hentries
    by_cases hr : Definitions.repeatedIssues (definitions.map (·.1)) = []
    · have hd := Definitions.repeatedIssues_eq_nil_iff.mp hr
      obtain ⟨outcomes, hg⟩ := List.Forall₂.of_forall_exists fun e hm =>
        exists_gives_iff.mpr (hp definitions hl hd e hm)
      rw [fields_of_distinct hl hd, he, Fault.ok_bind, shapes_outcome hg, Fault.ok_bind]
      exact exists_conclude ha
    · rw [fields_of_repeated hl hr, he, Fault.ok_bind]
      refine ⟨_, rfl, Verdict.decided_none_iff.mpr fun hnil => hr ?_⟩
      simpa using (List.append_eq_nil_iff.mp hnil).2

/-- A decoded document none of whose definitions faults has a verdict under all settings. -/
theorem exists_verdict [Visiting] {document : Value} (hw : document.isWellFormed = true)
    (hp : EachParses document) (arrival : Schedule) (settings : Settings) : ∃ verdict,
      (validateWith arrival settings document).outcome = .ok verdict ∧ verdict.Decided := by
  cases hentries : document.hasEntries with
  | false =>
    rw [outcome_of_not_hasEntries hentries]
    exact ⟨_, rfl, Verdict.decided_none_iff.mpr (by simp)⟩
  | true =>
    obtain ⟨listed, hl⟩ := Value.exists_lists_of_isWellFormed hw hentries
    rw [outcome_of_lists hl]
    exact exists_fields (hl.isWellFormed_ofList hw) fun definitions hd hdistinct =>
      hp definitions ⟨listed, hl, hd, hdistinct⟩

end Validation

end ServiceModel
