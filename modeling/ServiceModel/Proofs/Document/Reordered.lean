import ServiceModel.Proofs.Independence
import ServiceModel.Proofs.Shape.Reordered

/-!
# Verdicts on the parts of a reordered document

A verdict is made of the version, the metadata, the issues of the envelope and an outcome for each
definition. Of a document and a reordering of it these parts agree, each for itself, and verdicts on
parts that agree do so too.
-/
namespace ServiceModel

theorem Issue.marks_flatMap {α : Type} (items : List α) (f : α → List Issue) :
    marks (items.flatMap f) = items.flatMap fun item => marks (f item) := List.map_flatMap

/-- The models agree, or there is none, and the issues are the same up to their words and order. -/
structure Verdict.Agrees (verdict other : Verdict) : Prop where
  model : Option.Rel Model.Agrees verdict.model other.model
  marks : (Issue.marks verdict.issues).Perm (Issue.marks other.issues)

theorem Verdict.Agrees.isSome_eq {verdict other : Verdict} (h : verdict.Agrees other) :
    verdict.model.isSome = other.model.isSome := by
  obtain ⟨model, _⟩ := verdict
  obtain ⟨model', _⟩ := other
  obtain ⟨hm, -⟩ := h
  cases hm <;> rfl

structure Outcome.Agrees (outcome other : Outcome) : Prop where
  key : outcome.key = other.key
  shape : Option.Rel Shape.Agrees outcome.shape other.shape
  marks : (Issue.marks outcome.issues).Perm (Issue.marks other.issues)

section
open Value
variable {es fs : Entries Value}

namespace Envelope

theorem view_shuffled (key : Key) {v w : Value} (h : v.Shuffled w) :
    ∃ p q, view key v = .ok p ∧ view key w = .ok q ∧ p.Shuffled q := by
  unfold view
  rw [h.reordered.hasEntries_eq]
  split
  · exact ⟨_, _, rfl, rfl, shuffled_empty⟩
  · exact h.exists_plain

theorem issues_reordered [Visiting] (hd : Entries.distinct (es.map (·.1)) = true)
    (h : Entries.Rearranged Shuffled es fs) : ∃ found found', issues es = .ok found ∧
      issues fs = .ok found' ∧ (Issue.marks found).Perm (Issue.marks found') := by
  let viewed (e q : Key × Value) : Prop :=
    (do return (e.1, ← view e.1 e.2)) = Except.ok (ε := Fault) q
  obtain ⟨ps, qs, hps, hqs, hpq⟩ := List.Rearranged.exists_results (P := viewed) (Q := viewed)
    (S := fun p q => p.1 = q.1 ∧ p.2.Shuffled q.2) h fun e f hef => by
      obtain ⟨p, q, hp, hq, hpq⟩ := view_shuffled e.1 hef.2
      refine ⟨(e.1, p), (f.1, q), ?_, ?_, hef.1, hpq⟩
      · exact Fault.bind_eq_ok_iff.mpr ⟨p, hp, rfl⟩
      · exact Fault.bind_eq_ok_iff.mpr ⟨q, hef.1 ▸ hq, rfl⟩
  have keys : Entries.distinct (ps.map (·.1)) = true :=
    (pointwise_of_mapM (Fault.mapM_eq_ok_iff.mpr hps)).keys ▸ hd
  have shuffled : Shuffled (.map ps) (.map qs) := shuffled_map_iff.mpr ⟨qs, rfl, keys, hpq⟩
  have steady : Check.Steady check := by
    refine Check.steady_record ["smithy"] ?_
    simp only [List.forall_mem_cons, List.not_mem_nil, false_implies, implies_true, and_true]
    exact ⟨Check.steady_ofType .string, Check.steady_textKeyed, Check.steady_ofType .object⟩
  refine ⟨_, _, issues_eq_ok_iff.mpr ⟨ps, Fault.mapM_eq_ok_iff.mpr hps, rfl⟩,
    issues_eq_ok_iff.mpr ⟨qs, Fault.mapM_eq_ok_iff.mpr hqs, rfl⟩, ?_⟩
  rw [Issue.marks, Issue.marks, List.map_map, List.map_map]
  exact steady shuffled

end Envelope

namespace Validation

theorem version_reordered (hd : Entries.distinct (es.map (·.1)) = true)
    (h : Entries.Rearranged Shuffled es fs) :
    (es.field? "smithy").bind Value.str? = (fs.field? "smithy").bind Value.str? := by
  cases hv : es.field? "smithy" with
  | none => rw [h.field?_none hd hv]
  | some v =>
    obtain ⟨w, hw, hvw⟩ := h.field?_of_left hd hv
    rw [hw]
    exact hvw.reordered.str?_eq

theorem fixedMetadata_eq {document : Entries Value} {p f : Value}
    (hp : ((document.field? "metadata").getD (.map [])).HasPlain p) (hf : p.HasFixed f) :
    fixedMetadata document = .ok (match f with | .frozen entries => entries | _ => []) := by
  unfold fixedMetadata
  rw [hp, Fault.ok_bind, hf, Fault.ok_bind]
  cases f <;> rfl

theorem fixedMetadata_reordered (hd : Entries.distinct (es.map (·.1)) = true)
    (h : Entries.Rearranged Shuffled es fs) : ∃ metadata metadata',
      fixedMetadata es = .ok metadata ∧ fixedMetadata fs = .ok metadata' ∧
        Entries.Rearranged Value.Agrees metadata metadata' := by
  obtain ⟨p, q, hp, hq, hpq⟩ := (shuffled_field hd h "metadata" shuffled_empty).exists_plain
  obtain ⟨f, g, hf, hg, hfg⟩ := hpq.exists_fixed (isPlain_of_hasPlain hp)
  refine ⟨_, _, fixedMetadata_eq hp hf, fixedMetadata_eq hq hg, ?_⟩
  have empty : Entries.Rearranged Value.Agrees [] [] := List.Forall₂.nil.rearranged
  cases f with
  | frozen entries =>
    obtain ⟨others, rfl, -, hr⟩ := shuffled_frozen_iff.mp hfg
    exact hr.imp fun _ _ h => ⟨h.1, h.2.agrees⟩
  | _ =>
    cases hfg.reordered
    exact empty

theorem gives_reordered [Visiting] {e f : Key × Value} (hk : e.1 = f.1) (h : e.2.Shuffled f.2) :
    ∃ outcome outcome', Gives e outcome ∧ Gives f outcome' ∧ outcome.Agrees outcome' := by
  have parsed := Shape.parse_matched h (place_keys e)
  have same : place e = place f := by rw [place, place, hk]
  have marks : (Issue.marks (reported e)).Perm (Issue.marks (reported f)) := by
    unfold reported
    rw [Issue.marks_append, Issue.marks_append, hk, ← same]
    exact parsed.marks.append_left _
  obtain ⟨found, found', hf, hf', hfound⟩ := parsed.results
  refine ⟨_, _, gives_iff.mpr ⟨found, hf, rfl⟩, gives_iff.mpr ⟨found', same ▸ hf', rfl⟩, hk, ?_,
    marks⟩
  simp only [Issue.eq_nil_iff_of_marks marks]
  split
  · exact hfound
  · exact .none

theorem verdictOf_agrees (version : String) {metadata metadata' : Entries Value}
    {envelope envelope' : List Issue} {outcomes outcomes' : List Outcome}
    (hm : Entries.Rearranged Value.Agrees metadata metadata')
    (he : (Issue.marks envelope).Perm (Issue.marks envelope'))
    (ho : List.Rearranged Outcome.Agrees outcomes outcomes') :
    (verdictOf version metadata envelope outcomes).Agrees
      (verdictOf version metadata' envelope' outcomes') := by
  have found : (Issue.marks (outcomes.flatMap (·.issues))).Perm
      (Issue.marks (outcomes'.flatMap (·.issues))) := by
    rw [Issue.marks_flatMap, Issue.marks_flatMap]
    exact ho.perm_flatMap fun _ _ h => h.marks
  have accepted : (envelope = [] ∧ ∀ o ∈ outcomes, o.issues = []) ↔
      (envelope' = [] ∧ ∀ o ∈ outcomes', o.issues = []) := by
    rw [← List.flatMap_eq_nil_iff, ← List.flatMap_eq_nil_iff, Issue.eq_nil_iff_of_marks he,
      Issue.eq_nil_iff_of_marks found]
  constructor
  · unfold verdictOf
    simp only [accepted]
    split
    · refine .some ⟨rfl, hm, ho.filterMap ?_⟩
      rintro ⟨key, shape, issues⟩ ⟨_, shape', issues'⟩ ⟨rfl, hshape, -⟩
      cases hshape with
      | none => exact .none
      | some hshape => exact .some ⟨rfl, hshape⟩
    · exact .none
  · unfold verdictOf
    rw [Issue.marks_append, Issue.marks_append]
    exact he.append found

end Validation

end

end ServiceModel
