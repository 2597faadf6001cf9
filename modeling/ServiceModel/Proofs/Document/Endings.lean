import ServiceModel.Proofs.Assembly
import ServiceModel.Proofs.Shape.Cited

/-!
# The ways in which a run ends

A run that gives a verdict has come to one of four ends: the document is no mapping, its shapes are
none, ids are repeated, or the definitions were validated. So a rejected document has issues, and
all of them cite what stands in the document.
-/
namespace ServiceModel

namespace Validation

inductive Ending [Visiting] (arrival : Schedule) (settings : Settings) (document : Value) :
    Verdict → Prop
  | noMapping (h : document.hasEntries = false) : Ending arrival settings document
      ⟨none, [(Finding.documentNotMapping document).issueAt []]⟩
  | noShapes {listed : Entries Value} {envelope : List Issue} (hl : document.Lists listed)
    (he : Envelope.issues (Entries.ofList listed) = .ok envelope)
    (h : (((Entries.ofList listed).field? "shapes").getD (.map [])).hasEntries = false) :
    Ending arrival settings document ⟨none, envelope⟩
  | repeated {listed definitions : Entries Value} {envelope : List Issue}
    (hl : document.Lists listed) (he : Envelope.issues (Entries.ofList listed) = .ok envelope)
    (hd : (((Entries.ofList listed).field? "shapes").getD (.map [])).Lists definitions)
    (h : Definitions.repeats definitions shapesPath ≠ []) :
    Ending arrival settings document ⟨none, envelope ++ Definitions.repeats definitions shapesPath⟩
  | validated {listed definitions : Entries Value} {envelope : List Issue}
    {outcomes : List Outcome} {verdict : Verdict} (hl : document.Lists listed)
    (he : Envelope.issues (Entries.ofList listed) = .ok envelope)
    (hd : (((Entries.ofList listed).field? "shapes").getD (.map [])).Lists definitions)
    (ho : (shapes settings arrival definitions).outcome = .ok outcomes)
    (h : (conclude (Entries.ofList listed) envelope outcomes).outcome = .ok verdict) :
    Ending arrival settings document verdict

section
variable [Visiting] {arrival : Schedule} {settings : Settings} {document : Value}
  {verdict : Verdict}

theorem exists_lists_of_run (run : (validateWith arrival settings document).outcome = .ok verdict)
    (h : document.hasEntries = true) : ∃ listed, document.Lists listed := by
  rw [← Value.items?_isSome] at h
  obtain ⟨items, hi⟩ := Option.isSome_iff_exists.mp h
  unfold validateWith at run
  rw [hi] at run
  obtain ⟨listed, hk, -⟩ := Traced.outcome_bind_eq_ok_iff.mp run
  exact ⟨listed, Value.lists_iff.mpr ⟨items, hi, hk⟩⟩

theorem exists_definitions_of_run {fields : Entries Value}
    (run : (Validation.fields settings arrival fields).outcome = .ok verdict)
    (h : ((fields.field? "shapes").getD (.map [])).hasEntries = true) :
    ∃ definitions, ((fields.field? "shapes").getD (.map [])).Lists definitions := by
  obtain ⟨_, -, run⟩ := Traced.outcome_bind_eq_ok_iff.mp run
  dsimp only at run
  rw [h, Bool.not_true, if_neg Bool.false_ne_true] at run
  obtain ⟨_, hc, -⟩ := Traced.outcome_bind_eq_ok_iff.mp run
  rw [← Value.items?_isSome] at h
  obtain ⟨items, hi⟩ := Option.isSome_iff_exists.mp h
  have parts : ((fields.field? "shapes").getD (.map [])).itemsOrParts = .ok items := by
    simp [Value.itemsOrParts, hi]
  have hc : Definitions.collect _ shapesPath = .ok _ := hc
  rw [Definitions.collect, parts, Fault.ok_bind] at hc
  obtain ⟨definitions, hk, -⟩ := Fault.bind_eq_ok_iff.mp hc
  exact ⟨definitions, Value.lists_iff.mpr ⟨items, hi, hk⟩⟩

theorem ending_of_run (run : (validateWith arrival settings document).outcome = .ok verdict) :
    Ending arrival settings document verdict := by
  cases hentries : document.hasEntries with
  | false =>
    rw [outcome_of_not_hasEntries hentries] at run
    obtain rfl := Except.ok.inj run
    exact .noMapping hentries
  | true =>
    obtain ⟨listed, hl⟩ := exists_lists_of_run run hentries
    rw [outcome_of_lists hl] at run
    cases hraw : (((Entries.ofList listed).field? "shapes").getD (.map [])).hasEntries with
    | false =>
      rw [fields_of_not_hasEntries hraw] at run
      obtain ⟨envelope, he, run⟩ := Fault.bind_eq_ok_iff.mp run
      obtain rfl := Fault.pure_eq_ok_iff.mp run
      exact .noShapes hl he hraw
    | true =>
      obtain ⟨definitions, hd⟩ := exists_definitions_of_run run hraw
      by_cases hr : Definitions.repeatedIssues (definitions.map (·.1)) = []
      · rw [fields_of_distinct hd (Definitions.repeatedIssues_eq_nil_iff.mp hr)] at run
        obtain ⟨envelope, he, run⟩ := Fault.bind_eq_ok_iff.mp run
        obtain ⟨outcomes, ho, run⟩ := Fault.bind_eq_ok_iff.mp run
        exact .validated hl he hd ho run
      · rw [fields_of_repeated hd hr, Definitions.repeatedIssues_eq] at run
        obtain ⟨envelope, he, run⟩ := Fault.bind_eq_ok_iff.mp run
        obtain rfl := Fault.pure_eq_ok_iff.mp run
        refine .repeated hl he hd ?_
        rwa [← Definitions.repeatedIssues_eq, ne_eq, List.map_eq_nil_iff]

theorem ne_nil_of_rejected {issues : List Issue}
    (run : (validateWith arrival settings document).outcome = .ok ⟨none, issues⟩) :
    issues ≠ [] := by
  cases ending_of_run run with
  | noMapping => exact List.cons_ne_nil _ _
  | @noShapes listed _ _ he h =>
    rintro rfl
    have accepts := Envelope.accepts_of_issues he
    cases hf : (Entries.ofList listed).field? "shapes" with
    | none =>
      rw [hf] at h
      cases h
    | some shapes =>
      rw [hf] at h
      cases (accepts.shapes shapes hf).symm.trans h
  | repeated _ _ _ h => exact List.append_ne_nil_of_right_ne_nil _ h
  | validated _ _ _ _ h => exact (conclude_eq_none_iff.mp h).2

end

end Validation

/-! What the issues of a document cite. -/

section
open Value
variable {P : Value → Prop}

theorem Envelope.complaints_cite [Visiting] (ht : Value.Inherited P) {document : Entries Value}
    (h : document.Each P) {found : List Complaint} (hc : complaints document = .ok found) :
    ∀ c ∈ found, c.finding.Cites P := by
  obtain ⟨viewed, hview, rfl⟩ := complaints_eq_ok_iff.mp hc
  have seen : Entries.Each P viewed := by
    intro e he
    obtain ⟨d, hd, hk, hv⟩ := (pointwise_of_mapM hview).exists_of_mem_right he
    refine ⟨hk ▸ (h d hd).1, ?_⟩
    rcases hasPlain_of_view hv with hp | ⟨-, hp⟩
    · exact ht.plain (h d hd).2 hp
    · exact hp ▸ ht.empty
  refine Check.record_map_cites ht ?_ (by decide) seen
  exact List.forall_mem_cons.mpr ⟨Check.ofType_cites .string, List.forall_mem_cons.mpr
    ⟨Check.textKeyed_cites ht, List.forall_mem_singleton.mpr (Check.ofType_cites .object)⟩⟩

theorem Envelope.issues_cite [Visiting] (ht : Value.Inherited P) {document : Entries Value}
    (h : document.Each P) {found : List Issue} (hi : issues document = .ok found) :
    ∀ issue ∈ found, issue.Cites P := by
  rw [issues_eq_map] at hi
  obtain ⟨complaints, hc, hi⟩ := Fault.bind_eq_ok_iff.mp hi
  obtain rfl := Fault.pure_eq_ok_iff.mp hi
  exact List.forall_mem_map.mpr fun c hm => ⟨c.finding, _, rfl, complaints_cite ht h hc c hm⟩

theorem Definitions.repeats_cite {definitions : Entries Value} (h : definitions.Each P)
    (path : Path) : ∀ issue ∈ repeats definitions path, issue.Cites P := by
  refine List.forall_mem_map.mpr fun e he => ?_
  have passes := (h e (Entries.firsts_subset definitions (List.mem_filter.mp he).1)).1
  exact ⟨.shapeIdRepeated e.1.toValue _, _, rfl, List.forall_mem_singleton.mpr passes⟩

namespace Validation
variable [Visiting] {arrival : Schedule} {settings : Settings} {document : Value}
  {verdict : Verdict}

theorem reported_cites (ht : Value.Inherited P) {e : Key × Value} (hk : P e.1.toValue)
    (hv : P e.2) : ∀ issue ∈ reported e, issue.Cites P := by
  refine List.forall_mem_append.mpr ⟨fun issue hi => ?_, Shape.parse_cites ht hv _⟩
  unfold idIssues at hi
  split at hi
  · cases hi
  · rename_i refusal hr
    obtain rfl := List.mem_singleton.mp hi
    obtain rfl := Token.eq_of_parse_eq_error hr
    exact ⟨_, _, rfl, fun v hm => List.mem_singleton.mp hm ▸ hk⟩

theorem Covers.subset {failFast : Bool} {definitions : Entries Value} {issues : List Issue}
    (h : Covers failFast definitions issues) : issues ⊆ definitions.flatMap reported := by
  rcases h with rfl | ⟨-, e, he, -, rfl⟩
  · exact List.Subset.refl _
  · exact fun issue hi => List.mem_flatMap.mpr ⟨e, he, hi⟩

/-- The issues of a document cite only values with a property that the document has. -/
theorem issues_cite (ht : Value.Inherited P) (h : P document)
    (run : (validateWith arrival settings document).outcome = .ok verdict) :
    ∀ issue ∈ verdict.issues, issue.Cites P := by
  have listed {es : Entries Value} (hl : document.Lists es) : (Entries.ofList es).Each P :=
    (ht.listed h hl).ofList
  have defined {es definitions : Entries Value} (hl : document.Lists es)
      (hd : (((Entries.ofList es).field? "shapes").getD (.map [])).Lists definitions) :
      definitions.Each P := ht.listed ((listed hl).field_getD "shapes" ht.empty) hd
  cases ending_of_run run with
  | noMapping =>
    exact List.forall_mem_singleton.mpr ⟨.documentNotMapping document, [], rfl,
      fun v hm => List.mem_singleton.mp hm ▸ h⟩
  | noShapes hl he => exact Envelope.issues_cite ht (listed hl) he
  | repeated hl he hd =>
    exact List.forall_mem_append.mpr ⟨Envelope.issues_cite ht (listed hl) he,
      Definitions.repeats_cite (defined hl hd) _⟩
  | validated hl he hd ho hc =>
    rw [issues_of_conclude hc]
    refine List.forall_mem_append.mpr ⟨Envelope.issues_cite ht (listed hl) he, fun issue hi => ?_⟩
    obtain ⟨e, hm, hi⟩ := List.mem_flatMap.mp ((shapes_covers ho).subset hi)
    exact reported_cites ht (defined hl hd e hm).1 (defined hl hd e hm).2 issue hi

end Validation

end

end ServiceModel
