import ServiceModel.Proofs.Modes
import ServiceModel.Proofs.Placement
import ServiceModel.Proofs.Shape.Pointing

/-!
# Where the issues of a document point

The path of every issue leads from the document to what the issue is about, whether it comes from
the envelope, from the id of a definition or from the definition itself.
-/
namespace ServiceModel

namespace Envelope
open Value Check

/-- Each field is seen in its plain form, except that nothing is seen of definitions. -/
theorem hasPlain_of_view {key : Key} {value p : Value} (h : view key value = .ok p) :
    value.HasPlain p ∨ key = .str "shapes" ∧ p = .map [] := by
  unfold view at h
  split at h
  · rename_i hs
    exact .inr ⟨Key.same_str_iff.mp (Bool.and_eq_true_iff.mp hs).1, (Except.ok.inj h).symm⟩
  · exact .inl h

theorem issues_pointInto [Visiting] {document : Value} {es : Entries Value} {found : List Issue}
    (hv : document.Walkable) (hm : document.IsMapping es) (h : issues es = .ok found) :
    ∀ issue ∈ found, issue.PointsInto document := by
  obtain ⟨viewed, hview, rfl⟩ := issues_eq_ok_iff.mp h
  refine List.forall_mem_map.mpr (points_of_fields hm (hv.texts hm) (pointwise_of_mapM hview) ?_)
  have field : ∀ name (check : Check), check.Points → (name = "shapes" → check (.map []) = []) →
      ∀ v p, es.field? name = some v → view (.str name) v = .ok p →
        ∀ c ∈ check p, c.issue.PointsInto v := by
    intro name check hcheck hempty v p hf hp
    rcases hasPlain_of_view hp with hp | ⟨hk, rfl⟩
    · exact hcheck v p (hv.field hm hf) hp
    · rw [hempty (by simpa using hk)]
      exact fun c hc => nomatch hc
  refine List.forall_mem_cons.mpr ⟨field _ _ (ofType_points .string) (by simp), ?_⟩
  refine List.forall_mem_cons.mpr ⟨field _ _ textKeyed_points (by simp), ?_⟩
  exact List.forall_mem_singleton.mpr (field _ _ (ofType_points .object) fun _ => rfl)

end Envelope

namespace Validation
open Value
variable {settings : Settings} {arrival : Schedule}

theorem counted_subset (outcomes : List Outcome) :
    counted settings arrival outcomes ⊆ outcomes := by
  unfold counted
  split
  · split
    · unfold upToArrival
      split
      · rename_i outcome h
        exact List.cons_subset.mpr ⟨(mem_of_firstIn h).1, List.nil_subset _⟩
      · exact List.Subset.refl _
    · obtain ⟨rest, h, -⟩ := exists_upToRejected_append outcomes
      nth_rewrite 2 [h]
      exact List.subset_append_left _ _
  · exact List.Subset.refl _

/-- A verdict lists the issues of the envelope and those of the outcomes. -/
theorem issues_of_conclude {document : Entries Value} {envelope : List Issue}
    {outcomes : List Outcome} {verdict : Verdict}
    (h : (conclude document envelope outcomes).outcome = .ok verdict) :
    verdict.issues = envelope ++ outcomes.flatMap (·.issues) := by
  obtain ⟨model, issues⟩ := verdict
  cases model with
  | some model =>
    obtain ⟨rfl, rfl, ho, -⟩ := conclude_iff.mp h
    exact (List.flatMap_eq_nil_iff.mpr ho).symm
  | none => exact (conclude_eq_none_iff.mp h).1

theorem reported_pointInto [Visiting] {document : Value} {e : Key × Value} {name : String}
    (hv : e.2.Walkable) (hk : e.1 = .str name) (hat : document.at? (place e) = some e.2) :
    ∀ issue ∈ reported e, issue.PointsInto document := by
  refine List.forall_mem_append.mpr ⟨fun issue hi => ?_, Shape.parse_pointsInto hv hat⟩
  unfold idIssues at hi
  split at hi
  · cases hi
  · rename_i refusal h
    obtain rfl := List.mem_singleton.mp hi
    obtain rfl := Token.eq_of_parse_eq_error h
    refine ⟨e.2, e.1.toValue, .absoluteId, hat, rfl, h, .inr ⟨shapesPath, ?_⟩⟩
    change place e = _
    rw [place, hk]
    rfl

/-- Definitions stand where their issues are reported. -/
theorem definitions_at? {document : Value} {es definitions : Entries Value}
    (hv : document.Walkable) (hm : document.IsMapping es)
    (hl : ((es.field? "shapes").getD (.map [])).Lists definitions) :
    Entries.distinct (definitions.map (·.1)) = true ∧ ∀ e ∈ definitions, e.2.Walkable ∧
      ∃ name, e.1 = .str name ∧ document.at? (place e) = some e.2 := by
  cases hs : es.field? "shapes" with
  | none =>
    rw [hs] at hl
    cases hl
    exact ⟨rfl, fun e he => nomatch he⟩
  | some shapes =>
    rw [hs] at hl
    have walk := hv.field hm hs
    have mapping := IsMapping.of_lists walk.pairFree hl
    refine ⟨walk.distinct mapping, fun e he => ⟨walk.entries mapping e he, ?_⟩⟩
    obtain ⟨name, hname, hat⟩ := walk.exists_at? mapping e he
    refine ⟨name, hname, ?_⟩
    rw [place, hname, shapesPath, at?_append, hm.at?_name, hs]
    exact hat

end Validation

open Validation Value in
/-- Let every mapping of a document have texts for keys, and let the document hold no pair list.
Then a run ends with a verdict under all settings, and every issue points at what it is about: its
path can be walked from the document, to a mapping that lacks the last name if that is the
complaint, and the values of the issue are those that stand there. -/
theorem issues_point [Visiting] {document : Value} (hv : document.Walkable) (arrival : Schedule)
    (settings : Settings) : ∃ verdict,
      (validateWith arrival settings document).outcome = .ok verdict ∧
        ∀ issue ∈ verdict.issues, issue.PointsInto document := by
  have parses := eachParses_of_placed hv.wellFormed (.inl hv.pairFree)
  obtain ⟨verdict, run, -⟩ := exists_verdict hv.wellFormed parses arrival settings
  refine ⟨verdict, run, ?_⟩
  cases hentries : document.hasEntries with
  | false =>
    rw [outcome_of_not_hasEntries hentries] at run
    obtain rfl := Except.ok.inj run
    obtain ⟨plain, hp⟩ := exists_hasPlain_of_isPairFree hv.pairFree
    exact List.forall_mem_singleton.mpr ⟨document, document, plain, rfl, rfl, hp, hp⟩
  | true =>
    obtain ⟨es, hl⟩ := exists_lists_of_isWellFormed hv.wellFormed hentries
    have hm := IsMapping.of_lists hv.pairFree hl
    rw [outcome_of_lists hl, Entries.ofList_of_distinct es (hv.distinct hm)] at run
    cases hraw : ((es.field? "shapes").getD (.map [])).hasEntries with
    | false =>
      rw [fields_of_not_hasEntries hraw] at run
      obtain ⟨envelope, he, run⟩ := Fault.bind_eq_ok_iff.mp run
      obtain rfl := Fault.pure_eq_ok_iff.mp run
      exact Envelope.issues_pointInto hv hm he
    | true =>
      have hw : ((es.field? "shapes").getD (.map [])).isWellFormed = true := by
        cases hs : es.field? "shapes" with
        | none => rfl
        | some shapes => exact (hv.field hm hs).wellFormed
      obtain ⟨definitions, hd⟩ := exists_lists_of_isWellFormed hw hraw
      obtain ⟨hdistinct, hat⟩ := definitions_at? hv hm hd
      obtain ⟨outcomes, hg⟩ := exists_outcomes parses
        ⟨es, hl, by rwa [Entries.ofList_of_distinct es (hv.distinct hm)], hdistinct⟩
      rw [fields_of_distinct hd hdistinct, shapes_outcome hg] at run
      obtain ⟨envelope, he, run⟩ := Fault.bind_eq_ok_iff.mp run
      rw [Fault.ok_bind] at run
      rw [issues_of_conclude run]
      refine List.forall_mem_append.mpr ⟨Envelope.issues_pointInto hv hm he, fun issue hi => ?_⟩
      obtain ⟨outcome, ho, hi⟩ := List.mem_flatMap.mp hi
      obtain ⟨e, hmem, hgives⟩ := hg.exists_of_mem_right (counted_subset outcomes ho)
      obtain ⟨walk, name, hname, hplace⟩ := hat e hmem
      exact reported_pointInto walk hname hplace issue (hgives.issues ▸ hi)

open scoped Visiting in
open Value in
/-- A version that is no text, a list that lacks its member and has a field too many, and a
definition without a type under what is no absolute id. -/
theorem issues_point_of_five : ∃ (document : Value) (verdict : Verdict),
    document = .map [(.str "smithy", .int 2), (.str "shapes", .frozen
      [(.str "a#B", .map [(.str "type", .str "list"), (.str "extra", .null)]),
        (.str "b", .frozen [])])] ∧
    document.Walkable ∧
    (validate ⟨false, 1, "", ""⟩ document).outcome = .ok verdict ∧
    verdict.issues = [(Finding.wrongType (.int 2) .string).issueAt [.str "smithy"],
      (Finding.fieldMissing "member").issueAt [.str "shapes", .str "a#B", .str "member"],
      (Finding.fieldUnexpected (.str "extra")).issueAt [.str "shapes", .str "a#B", .str "extra"],
      (Finding.badShapeId ⟨.str "b", .absoluteId⟩).issueAt [.str "shapes", .str "b"],
      Finding.typeMissing.issueAt [.str "shapes", .str "b", .str "type"]] ∧
    ∀ issue ∈ verdict.issues, issue.PointsInto document := by
  have walk : (Value.map [(.str "smithy", .int 2), (.str "shapes", .frozen
      [(.str "a#B", .map [(.str "type", .str "list"), (.str "extra", .null)]),
        (.str "b", .frozen [])])]).Walkable := ⟨by decide, by decide, by decide⟩
  obtain ⟨verdict, run, points⟩ := issues_point walk .inOrder ⟨false, 1, "", ""⟩
  refine ⟨_, verdict, rfl, walk, run, ?_, points⟩
  obtain rfl := Except.ok.inj run
  rfl

end ServiceModel
