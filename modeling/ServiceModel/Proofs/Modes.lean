import ServiceModel.Proofs.Document.Outcomes

/-!
# The modes of validation agree

If no definition faults, workers and their order make no difference to a verdict that takes all
shapes into account. Stopping at the first rejected shape accepts the same models, and reports the
same issues up to the last one of that shape.
-/
namespace ServiceModel

namespace Validation
variable [Visiting]

theorem exists_outcomes {document : Value} {definitions : Entries Value}
    (h : EachParses document) (hl : LooksAt document definitions) :
    ∃ outcomes, List.Forall₂ Gives definitions outcomes :=
  List.Forall₂.of_forall_exists fun e he => exists_gives_iff.mpr (h definitions hl e he)

theorem flatMap_reported {definitions : Entries Value} {outcomes : List Outcome}
    (h : List.Forall₂ Gives definitions outcomes) :
    definitions.flatMap reported = outcomes.flatMap (·.issues) :=
  h.flatMap_eq fun _ _ hg => hg.issues.symm

theorem rejected_of_gives {e : Key × Value} {outcome : Outcome} (h : Gives e outcome) :
    outcome.rejected = !(reported e).isEmpty := by
  rw [Outcome.rejected, h.issues]

/-- What a verdict reports if it stops at the first rejected definition. -/
theorem stopped_of_rejected {document : Value} (h : EachParses document)
    {arrival arrival' : Schedule} {all stopping : Settings} (hall : all.failFast = false)
    (hstop : stopping.failFast = true) (hw : stopping.maxWorkers ≤ 1) {issues : List Issue}
    (hi : (validateWith arrival all document).outcome = .ok ⟨none, issues⟩) :
    ∃ first later, issues = first ++ later ∧
      (validateWith arrival' stopping document).outcome = .ok ⟨none, first⟩ ∧
      ((∀ definitions, LooksAt document definitions → ∀ e ∈ definitions, reported e = []) →
        later = []) ∧
      ∀ before bad after, LooksAt document (before ++ bad :: after) →
        (∀ e ∈ before, reported e = []) → reported bad ≠ [] →
          (∃ earlier, first = earlier ++ reported bad) ∧ later = after.flatMap reported := by
  by_cases hlooks : ∃ definitions, LooksAt document definitions
  · obtain ⟨definitions, hl⟩ := hlooks
    obtain ⟨outcomes, hg⟩ := exists_outcomes h hl
    obtain ⟨listed, -, run⟩ := outcome_of_looksAt hl
    rw [run, Fault.bind_eq_ok_iff] at hi
    obtain ⟨envelope, henvelope, hi⟩ := hi
    rw [shapes_outcome hg, Fault.ok_bind, counted, hall, if_neg Bool.false_ne_true,
      conclude_eq_none_iff] at hi
    obtain ⟨rfl, hne⟩ := hi
    obtain ⟨rest, hrest, hend⟩ := exists_upToRejected_append outcomes
    have sequential : counted stopping arrival' outcomes = upToRejected outcomes := by
      have hw' : ¬ stopping.maxWorkers > 1 := by omega
      simp [counted, hstop, hw']
    refine ⟨envelope ++ (upToRejected outcomes).flatMap (·.issues), rest.flatMap (·.issues),
      ?_, ?_, fun hnone => ?_, fun before bad after hl' hb hbad => ?_⟩
    · conv_lhs => rw [hrest]
      rw [List.flatMap_append, List.append_assoc]
    · rw [run, henvelope, Fault.ok_bind, shapes_outcome hg, Fault.ok_bind, sequential,
        conclude_eq_none_iff]
      refine ⟨rfl, fun hempty => hne ?_⟩
      obtain ⟨rfl, hfirst⟩ := List.append_eq_nil_iff.mp hempty
      rw [hend hfirst, List.append_nil] at hrest
      rw [hrest, hfirst, List.append_nil]
    · have nothing := flatMap_reported hg
      rw [List.flatMap_eq_nil_iff.mpr (hnone definitions hl), hrest, List.flatMap_append] at nothing
      exact (List.append_eq_nil_iff.mp nothing.symm).2
    · obtain rfl := hl.unique hl'
      obtain ⟨os, os', rfl, hos, hos'⟩ := hg.exists_append
      obtain _ | @⟨_, o, _, more, ho, hmore⟩ := hos'
      have accepted : ∀ o ∈ os, o.rejected = false := by
        intro o ho
        obtain ⟨e, he, hge⟩ := hos.exists_of_mem_right ho
        simp [rejected_of_gives hge, hb e he]
      have rejected : o.rejected = true := rejected_iff.mpr (by rwa [ho.issues])
      rw [upToRejected_append accepted rejected] at hrest ⊢
      have : rest = more := by simpa using hrest.symm
      subst this
      refine ⟨⟨envelope ++ os.flatMap (·.issues), ?_⟩, (flatMap_reported hmore).symm⟩
      simp [ho.issues]
  · refine ⟨issues, [], (List.append_nil _).symm, ?_, fun _ => rfl, fun _ _ _ hl => ?_⟩
    · rw [← hi]
      exact outcome_of_not_looksAt (not_exists.mp hlooks) _ _ _ _
    · exact absurd ⟨_, hl⟩ hlooks

/-- At most one definition that is looked at is rejected. -/
def AtMostOneRejected (document : Value) : Prop :=
  ∀ definitions, LooksAt document definitions →
    definitions.countP (fun e => !(reported e).isEmpty) ≤ 1

theorem outcome_eq_of_atMostOneRejected {document : Value} (h : EachParses document)
    {arrival arrival' : Schedule} {settings all : Settings} (hall : all.failFast = false)
    (hone : AtMostOneRejected document) : (validateWith arrival' settings document).outcome =
      (validateWith arrival all document).outcome := by
  by_cases hlooks : ∃ definitions, LooksAt document definitions
  · obtain ⟨definitions, hl⟩ := hlooks
    obtain ⟨outcomes, hg⟩ := exists_outcomes h hl
    obtain ⟨listed, -, run⟩ := outcome_of_looksAt hl
    have hcount : outcomes.countP Outcome.rejected ≤ 1 := by
      rw [← hg.countP_eq fun _ _ hg => (rejected_of_gives hg).symm]
      exact hone definitions hl
    have hcall : counted all arrival outcomes = outcomes := by simp [counted, hall]
    rw [run, run]
    refine congrArg _ (funext fun envelope => ?_)
    rw [shapes_outcome hg, shapes_outcome hg, Fault.ok_bind, Fault.ok_bind, hcall]
    by_cases hnone : ∀ o ∈ outcomes, o.rejected = false
    · rw [counted_of_none hnone]
    · have hne : envelope ++ outcomes.flatMap (·.issues) ≠ [] := by
        obtain ⟨before, bad, after, rfl, -, hr⟩ := exists_first_rejected hnone
        have hbad := rejected_iff.mp hr
        simp [hbad]
      rw [conclude_eq_none_iff.mpr ⟨rfl, hne⟩, conclude_eq_none_iff,
        issues_counted_of_le_one hcount]
      exact ⟨rfl, hne⟩
  · exact outcome_of_not_looksAt (not_exists.mp hlooks) _ _ _ _

/-- All shapes taken into account, the number of workers and the order in which they come in do not
matter. -/
theorem outcome_eq_of_not_failFast {document : Value} (h : EachParses document)
    {arrival arrival' : Schedule} {settings all : Settings} (hall : all.failFast = false)
    (hs : settings.failFast = false) : (validateWith arrival' settings document).outcome =
      (validateWith arrival all document).outcome := by
  by_cases hlooks : ∃ definitions, LooksAt document definitions
  · obtain ⟨definitions, hl⟩ := hlooks
    obtain ⟨outcomes, hg⟩ := exists_outcomes h hl
    obtain ⟨listed, -, run⟩ := outcome_of_looksAt hl
    rw [run, run, shapes_outcome hg, shapes_outcome hg]
    simp [counted, hall, hs]
  · exact outcome_of_not_looksAt (not_exists.mp hlooks) _ _ _ _

end Validation

open Validation in
/-- Let no definition fault. Then a verdict that takes all shapes into account is the same with any
number of workers and in any order. One that stops at the first rejected shape accepts the same
models; when it rejects, its issues are those of all shapes up to the last one of the first rejected
shape. With workers it is the full verdict if at most one shape is rejected. -/
theorem modes_agree [Visiting] {document : Value} (h : EachParses document) (all other : Settings)
    (hall : all.failFast = false) (arrival arrival' : Schedule) :
    (other.failFast = false → (validateWith arrival' other document).outcome =
      (validateWith arrival all document).outcome) ∧
    (other.failFast = true → other.maxWorkers ≤ 1 →
      (∀ model issues, (validateWith arrival' other document).outcome = .ok ⟨some model, issues⟩ ↔
        (validateWith arrival all document).outcome = .ok ⟨some model, issues⟩) ∧
      ∀ issues, (validateWith arrival all document).outcome = .ok ⟨none, issues⟩ →
        ∃ first later, issues = first ++ later ∧
          (validateWith arrival' other document).outcome = .ok ⟨none, first⟩ ∧
          ((∀ definitions, LooksAt document definitions → ∀ e ∈ definitions, reported e = []) →
            later = []) ∧
          ∀ before bad after, LooksAt document (before ++ bad :: after) →
            (∀ e ∈ before, reported e = []) → reported bad ≠ [] →
              (∃ earlier, first = earlier ++ reported bad) ∧ later = after.flatMap reported) ∧
    (other.failFast = true → AtMostOneRejected document →
      (validateWith arrival' other document).outcome =
        (validateWith arrival all document).outcome) := by
  refine ⟨fun hs => outcome_eq_of_not_failFast h hall hs, fun hs hw => ⟨fun model issues => ?_,
    fun issues hi => stopped_of_rejected h hall hs hw hi⟩,
    fun _ hone => outcome_eq_of_atMostOneRejected h hall hone⟩
  rw [validateWith_accepts_iff, validateWith_accepts_iff]

open scoped Visiting in
open Validation in
/-- A document of whose two shapes the first is rejected, where the second worker comes in first. -/
theorem modes_agree_one_rejected : ∃ (document : Value) (issue : Issue),
    document = .map [(.str "smithy", .str "2.0"),
      (.str "shapes", .map [(.str "a#B", .map [(.str "type", .str "enum")]),
        (.str "a#C", .map [(.str "type", .str "blob")])])] ∧
    EachParses document ∧ AtMostOneRejected document ∧
    (validate ⟨false, 1, "", ""⟩ document).outcome = .ok ⟨none, [issue]⟩ ∧
    (validateWith .reversed ⟨false, 2, "", ""⟩ document).outcome = .ok ⟨none, [issue]⟩ ∧
    (validate ⟨true, 1, "", ""⟩ document).outcome = .ok ⟨none, [issue]⟩ ∧
    (validateWith .reversed ⟨true, 2, "", ""⟩ document).outcome = .ok ⟨none, [issue]⟩ := by
  refine ⟨_, (Finding.fieldMissing "members").issueAt [.str "shapes", .str "a#B", .str "members"],
    rfl, ?_⟩
  generalize hdocument : Value.map _ = document
  have looks : LooksAt document [(.str "a#B", .map [(.str "type", .str "enum")]),
      (.str "a#C", .map [(.str "type", .str "blob")])] := by
    subst hdocument
    exact ⟨_, .map _, .map _, rfl⟩
  have each : EachParses document := by
    intro definitions hl e he
    obtain rfl := looks.unique hl
    rcases List.mem_pair.mp he with rfl | rfl
    · exact ⟨_, rfl⟩
    · exact ⟨_, rfl⟩
  have one : AtMostOneRejected document := by
    intro definitions hl
    obtain rfl := looks.unique hl
    decide
  have full : (validate ⟨false, 1, "", ""⟩ document).outcome = .ok ⟨none,
      [(Finding.fieldMissing "members").issueAt [.str "shapes", .str "a#B", .str "members"]]⟩ := by
    obtain ⟨listed, hl, run⟩ := outcome_of_looksAt looks
    obtain ⟨outcomes, hg⟩ := exists_outcomes each looks
    have envelope : Envelope.issues (Entries.ofList listed) = .ok [] := by
      subst hdocument
      obtain rfl := hl.unique (.map _)
      rfl
    have all : ∀ arrival, counted ⟨false, 1, "", ""⟩ arrival outcomes = outcomes := fun _ => rfl
    rw [validate, run, envelope, Fault.ok_bind, shapes_outcome hg, Fault.ok_bind, all,
      conclude_eq_none_iff, ← flatMap_reported hg]
    exact ⟨rfl, by simp⟩
  obtain ⟨workers, -, -⟩ := modes_agree each ⟨false, 1, "", ""⟩ ⟨false, 2, "", ""⟩
    rfl .inOrder .reversed
  obtain ⟨-, stopping, -⟩ := modes_agree each ⟨false, 1, "", ""⟩ ⟨true, 1, "", ""⟩
    rfl .inOrder .inOrder
  obtain ⟨-, -, both⟩ := modes_agree each ⟨false, 1, "", ""⟩ ⟨true, 2, "", ""⟩
    rfl .inOrder .reversed
  refine ⟨each, one, full, (workers rfl).trans full, ?_, (both rfl one).trans full⟩
  obtain ⟨first, later, hissues, hfirst, -, hlater⟩ := (stopping rfl (by decide)).2 _ full
  have nothing : later = [] := (hlater [] _ _ looks (by simp) (by decide)).2.trans rfl
  rw [nothing, List.append_nil] at hissues
  rwa [← hissues] at hfirst

end ServiceModel
