import ServiceModel.Proofs.Document.Reordered

/-!
# Documents that are reordered

The verdict on a document does not depend on the order in which its mappings are written, at any
depth. The runs on a document and on a reordering of it end alike: with models that agree, or with
the same issues up to their words and their order.
-/
namespace ServiceModel

namespace Validation
open Value
variable {settings : Settings} {arrival arrival' : Schedule} {document other : Value}

/-- Both runs end with verdicts that agree. -/
def EndAlike (run run' : Run Verdict) : Prop :=
  ∃ verdict verdict', run.outcome = .ok verdict ∧ run'.outcome = .ok verdict' ∧
    verdict.Agrees verdict'

theorem fields_reordered [Visiting] {es fs : Entries Value} (hs : settings.failFast = false)
    (hv : document.Maps es) (hw : other.Maps fs) (hd : Entries.distinct (es.map (·.1)) = true)
    (h : Entries.Rearranged Shuffled es fs) :
    EndAlike (validateWith arrival settings document) (validateWith arrival' settings other) := by
  obtain ⟨envelope, envelope', he, he', marks⟩ := Envelope.issues_reordered hd h
  have hes := Entries.ofList_of_distinct es hd
  have hfs := Entries.ofList_of_distinct fs (h.distinct hd)
  cases (shuffled_field hd h "shapes" shuffled_empty).read with
  | other hraw hraw' =>
    refine ⟨⟨none, envelope⟩, ⟨none, envelope'⟩, ?_, ?_, .none, marks⟩
    · rw [outcome_of_lists hv.lists, hes, fields_of_not_hasEntries hraw, he]
      rfl
    · rw [outcome_of_lists hw.lists, hfs, fields_of_not_hasEntries hraw', he']
      rfl
  | @mapping ds ds' hraw hraw' hdistinct hdef =>
    obtain ⟨metadata, metadata', hm, hm', hmeta⟩ := fixedMetadata_reordered hd h
    obtain ⟨outcomes, outcomes', hg, hg', houtcomes⟩ :=
      List.Rearranged.exists_results hdef fun e f hef => gives_reordered hef.1 hef.2
    refine ⟨_, _, outcome_of_parts hs hv.lists (hes.symm ▸ hraw.lists) hdistinct (hes.symm ▸ he)
      (fun _ => hes.symm ▸ hm) hg, outcome_of_parts hs hw.lists (hfs.symm ▸ hraw'.lists)
      (hdef.distinct hdistinct) (hfs.symm ▸ he') (fun _ => hfs.symm ▸ hm') hg', ?_⟩
    rw [hes, hfs, version_reordered hd h]
    exact verdictOf_agrees _ hmeta marks houtcomes

theorem endAlike_of_shuffled [Visiting] (hs : settings.failFast = false)
    (h : document.Shuffled other) :
    EndAlike (validateWith arrival settings document) (validateWith arrival' settings other) := by
  cases h.read with
  | other hv hw =>
    exact ⟨_, _, outcome_of_not_hasEntries hv arrival settings,
      outcome_of_not_hasEntries hw arrival' settings, .none, .refl _⟩
  | mapping hv hw hd hef => exact fields_reordered hs hv hw hd hef

end Validation

open Validation in
/-- Let a document hold no pair list, and let all shapes be taken into account. Then the runs on the
document and on any reordering of it end, in whatever order workers come in. Both have a model or
neither has; the models agree, and the issues have the same kinds and paths, each as often. -/
theorem verdict_of_reordered [Visiting] {document other : Value} (hw : document.isWellFormed = true)
    (hp : document.isPairFree = true) (h : document.Reordered other) (settings : Settings)
    (hs : settings.failFast = false) (arrival arrival' : Schedule) :
    ∃ verdict verdict', (validateWith arrival settings document).outcome = .ok verdict ∧
      (validateWith arrival' settings other).outcome = .ok verdict' ∧
      (verdict.model.isSome = true ↔ verdict'.model.isSome = true) ∧
      Option.Rel Model.Agrees verdict.model verdict'.model ∧
      (verdict.issues.map Issue.mark).Perm (verdict'.issues.map Issue.mark) := by
  obtain ⟨verdict, verdict', hv, hv', model, marks⟩ : EndAlike (validateWith arrival settings
    document) (validateWith arrival' settings other) := endAlike_of_shuffled hs ⟨⟨hp, hw⟩, h⟩
  refine ⟨verdict, verdict', hv, hv', ?_, model, marks⟩
  rw [Verdict.Agrees.isSome_eq ⟨model, marks⟩]

open scoped Visiting in
/-- A document and its fields in reverse, with members whose names collide. -/
theorem verdict_of_reordered_colliding : ∃ (document other : Value) (issues issues' : List Issue),
    document = .map [(.str "smithy", .str "2.0"), (.str "x", .int 1), (.str "y", .int 2),
      (.str "shapes", .map [(.str "a#U", .map [(.str "type", .str "union"), (.str "members",
        .map [(.str "ab", .map [(.str "target", .str "a#B")]),
          (.str "AB", .map [(.str "target", .str "a#C")])])])])] ∧
    other = .map [(.str "shapes", .map [(.str "a#U", .map [(.str "members",
        .map [(.str "AB", .map [(.str "target", .str "a#C")]),
          (.str "ab", .map [(.str "target", .str "a#B")])]), (.str "type", .str "union")])]),
      (.str "y", .int 2), (.str "x", .int 1), (.str "smithy", .str "2.0")] ∧
    document.isWellFormed = true ∧ document.isPairFree = true ∧ document.Reordered other ∧
    issues = [(Finding.fieldUnexpected (.str "x")).issueAt [.str "x"],
      (Finding.fieldUnexpected (.str "y")).issueAt [.str "y"],
      (Finding.collidingMembers [.str "ab", .str "AB"]).issueAt
        [.str "shapes", .str "a#U", .str "members"]] ∧
    issues' = [(Finding.fieldUnexpected (.str "y")).issueAt [.str "y"],
      (Finding.fieldUnexpected (.str "x")).issueAt [.str "x"],
      (Finding.collidingMembers [.str "AB", .str "ab"]).issueAt
        [.str "shapes", .str "a#U", .str "members"]] ∧
    (validate Settings.standard document).outcome = .ok ⟨none, issues⟩ ∧
    (validate Settings.standard other).outcome = .ok ⟨none, issues'⟩ ∧
    (issues.map Issue.mark).Perm (issues'.map Issue.mark) := by
  have reversed : ∀ {es fs : Entries Value}, List.Forall₂ (Entries.Under Value.Reordered) es fs →
      Value.Reordered (.map es) (.map fs.reverse) := fun h => .map h (List.reverse_perm _).symm
  have member : ∀ id, Value.Reordered (.map [(.str "target", .str id)])
      (.map [(.str "target", .str id)]) := fun id => reversed (.cons (.intro _ (.scalar _)) .nil)
  have members := reversed (.cons (.intro (.str "ab") (member "a#B"))
    (.cons (.intro (.str "AB") (member "a#C")) .nil))
  have definition := reversed (.cons (.intro (.str "type") (.scalar (.str "union")))
    (.cons (.intro (.str "members") members) .nil))
  have shapes := reversed (.cons (.intro (.str "a#U") definition) .nil)
  have h := reversed (.cons (.intro (.str "smithy") (.scalar (.str "2.0")))
    (.cons (.intro (.str "x") (.scalar (.int 1))) (.cons (.intro (.str "y") (.scalar (.int 2)))
      (.cons (.intro (.str "shapes") shapes) .nil))))
  obtain ⟨verdict, verdict', hv, hv', -, -, marks⟩ :=
    verdict_of_reordered (by decide) (by decide) h Settings.standard rfl .inOrder .inOrder
  have run : verdict = ⟨none, _⟩ := Except.ok.inj (hv.symm.trans rfl)
  have run' : verdict' = ⟨none, _⟩ := Except.ok.inj (hv'.symm.trans rfl)
  subst run run'
  exact ⟨_, _, _, _, rfl, rfl, by decide, by decide, h, rfl, rfl, hv, hv', marks⟩

end ServiceModel
