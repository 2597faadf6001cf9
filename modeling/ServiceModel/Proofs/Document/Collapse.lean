import ServiceModel.Proofs.Shape.Collapse

/-!
# Documents that are judged like their plain forms

Two documents are judged alike if they get the same model, or issues of the same kinds at the same
places. A decoded document and its plain form have the same envelope and the same definitions up to
plain forms; alike outcomes for these make alike verdicts, whichever outcomes count.
-/
namespace ServiceModel

/-- The same model, and the same issues up to their words. -/
structure Verdict.Alike (verdict other : Verdict) : Prop where
  model : verdict.model = other.model
  issues : verdict.issues.map Issue.mark = other.issues.map Issue.mark

structure Outcome.Alike (outcome other : Outcome) : Prop where
  key : outcome.key = other.key
  shape : outcome.shape = other.shape
  issues : outcome.issues.map Issue.mark = other.issues.map Issue.mark

theorem Outcome.Alike.rejected {outcome other : Outcome} (h : outcome.Alike other) :
    outcome.rejected = other.rejected := by
  have nil_iff : outcome.issues = [] ↔ other.issues = [] := by
    rw [← List.map_eq_nil_iff (f := Issue.mark), h.issues, List.map_eq_nil_iff]
  rw [Bool.eq_iff_iff, Validation.rejected_iff, Validation.rejected_iff, ne_eq, nil_iff]

namespace Envelope
open Value

theorem view_congr {value plain : Value} (key : Key) (hp : value.HasPlain plain) :
    view key value = view key plain := by
  unfold view
  rw [hp.hasEntries_eq, hp.toPlain_eq]

theorem issues_congr [Visiting] {es ps : Entries Value} (hq : Entries.Pointwise HasPlain es ps) :
    issues es = issues ps := by
  have viewed : (es.mapM fun e => do return (e.1, ← view e.1 e.2) : Except Fault _) =
      ps.mapM fun e => do return (e.1, ← view e.1 e.2) := by
    induction hq with
    | nil => rfl
    | cons he _ ih => rw [List.mapM_cons, List.mapM_cons, ih, view_congr _ he.2, he.1]
  rw [issues_eq, issues_eq]
  exact congrArg (· >>= fun entries => pure ((check (.map entries)).map Complaint.issue)) viewed

end Envelope

namespace Validation
open Value
variable {settings : Settings} {arrival : Schedule} {es ps : Entries Value}
  {outcomes others : List Outcome}

theorem upToRejected_alike (h : List.Forall₂ Outcome.Alike outcomes others) :
    List.Forall₂ Outcome.Alike (upToRejected outcomes) (upToRejected others) := by
  induction h with
  | nil => exact .nil
  | @cons o p _ _ ho _ ih =>
    rw [upToRejected, upToRejected, ho.rejected]
    cases p.rejected with
    | true => exact .cons ho .nil
    | false => exact .cons ho ih

theorem upToArrival_alike (positions : List Nat) (h : List.Forall₂ Outcome.Alike outcomes others) :
    List.Forall₂ Outcome.Alike (upToArrival positions outcomes) (upToArrival positions others) := by
  have first := (h.filterMap_getElem? positions).find? (p := Outcome.rejected)
    (q := Outcome.rejected) fun o p ho => ho.rejected
  unfold upToArrival firstIn
  generalize List.find? _ _ = found at first ⊢
  generalize List.find? _ _ = chosen at first ⊢
  cases first with
  | none => exact h
  | some ho => exact .cons ho .nil

theorem counted_alike (h : List.Forall₂ Outcome.Alike outcomes others) :
    List.Forall₂ Outcome.Alike (counted settings arrival outcomes)
      (counted settings arrival others) := by
  unfold counted
  rw [h.length_eq]
  split
  · split
    · exact upToArrival_alike _ h
    · exact upToRejected_alike h
  · exact h

theorem typedShapes_congr (h : List.Forall₂ Outcome.Alike outcomes others) :
    typedShapes outcomes = typedShapes others := by
  unfold typedShapes
  induction h with
  | nil => rfl
  | cons ho _ ih => rw [List.filterMap_cons, List.filterMap_cons, ih, ho.key, ho.shape]

theorem flatMap_issues_alike (h : List.Forall₂ Outcome.Alike outcomes others) :
    (outcomes.flatMap (·.issues)).map Issue.mark = (others.flatMap (·.issues)).map Issue.mark := by
  rw [List.map_flatMap, List.map_flatMap]
  exact h.flatMap_eq fun o p ho => ho.issues

theorem fixedMetadata_congr (hq : Entries.Pointwise HasPlain es ps) :
    fixedMetadata es = fixedMetadata ps := by
  unfold fixedMetadata
  rw [(hasPlain_field hq "metadata" (.map []) rfl).toPlain_eq]

theorem version_congr (hq : Entries.Pointwise HasPlain es ps) :
    (es.field? "smithy").bind Value.str? = (ps.field? "smithy").bind Value.str? := by
  cases hf : es.field? "smithy" with
  | none => rw [hq.field?_none hf]
  | some v =>
    obtain ⟨p, hpf, hp⟩ := hq.field?_of_left hf
    rw [hpf]
    exact hp.str?_eq

theorem conclude_alike {envelope : List Issue} {verdict : Verdict}
    (hq : Entries.Pointwise HasPlain es ps) (h : List.Forall₂ Outcome.Alike outcomes others)
    (hv : (conclude es envelope outcomes).outcome = .ok verdict) :
    ∃ other, (conclude ps envelope others).outcome = .ok other ∧ verdict.Alike other := by
  have marks := flatMap_issues_alike h
  obtain ⟨found, issues⟩ := verdict
  cases found with
  | some model =>
    obtain ⟨rfl, rfl, ho, metadata, hm, rfl⟩ := conclude_iff.mp hv
    have hothers : others.flatMap (·.issues) = [] := by
      rw [List.flatMap_eq_nil_iff.mpr ho] at marks
      exact List.map_eq_nil_iff.mp marks.symm
    refine ⟨_, conclude_iff.mpr ⟨rfl, rfl, List.flatMap_eq_nil_iff.mp hothers, metadata,
      fixedMetadata_congr hq ▸ hm, rfl⟩, ?_, rfl⟩
    rw [version_congr hq, typedShapes_congr h]
  | none =>
    obtain ⟨rfl, hne⟩ := conclude_eq_none_iff.mp hv
    have same : (envelope ++ outcomes.flatMap (·.issues)).map Issue.mark =
        (envelope ++ others.flatMap (·.issues)).map Issue.mark := by
      rw [List.map_append, List.map_append, marks]
    refine ⟨_, conclude_eq_none_iff.mpr ⟨rfl, fun hnil => hne ?_⟩, rfl, same⟩
    rw [hnil] at same
    exact List.map_eq_nil_iff.mp same

theorem gives_alike [Visiting] {e q : Key × Value} {outcome other : Outcome} (hk : e.1 = q.1)
    (ho : (Shape.parse e.2 (place e)).outcome = (Shape.parse q.2 (place q)).outcome)
    (ht : (Shape.parse e.2 (place e)).trace.map Issue.mark =
      (Shape.parse q.2 (place q)).trace.map Issue.mark) (h : Gives e outcome) (h' : Gives q other) :
    outcome.Alike other := by
  obtain ⟨found, hf, rfl⟩ := gives_iff.mp h
  obtain ⟨found', hf', rfl⟩ := gives_iff.mp h'
  obtain rfl : found = found' := Except.ok.inj (hf.symm.trans (ho.trans hf'))
  have marks : (reported e).map Issue.mark = (reported q).map Issue.mark := by
    unfold reported
    rw [List.map_append, List.map_append, ht, place, place, hk]
  have nil_iff : reported e = [] ↔ reported q = [] := by
    rw [← List.map_eq_nil_iff (f := Issue.mark), marks, List.map_eq_nil_iff]
  exact ⟨hk, by simp only [nil_iff], marks⟩

end Validation

end ServiceModel
