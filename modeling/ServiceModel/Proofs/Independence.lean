import ServiceModel.Proofs.Document.Verdicts
import ServiceModel.Proofs.Modes

/-!
# Definitions are validated independently

The verdict on a document is put together from verdicts on smaller documents: the same one without
definitions, and one document for each definition alone. What is reported for a definition is
therefore the same in every document that holds it, whatever stands beside it.
-/
namespace ServiceModel

namespace Entries
variable {α : Type} {es : Entries α} {name : String}

theorem insert_of_field?_none (h : es.field? name = none) (value : α) :
    es.insert (.str name) value = es ++ [(.str name, value)] := by
  refine insert_of_absent (fun e he => ?_) value
  rw [← Bool.not_eq_true, Key.same_str_iff]
  exact field?_eq_none_iff.mp h e he

theorem insert_insert (es : Entries α) (name : String) (value other : α) :
    (es.insert (.str name) value).insert (.str name) other = es.insert (.str name) other := by
  induction es with
  | nil => simp [insert, Key.str_same_self]
  | cons e rest ih =>
    obtain ⟨k, v⟩ := e
    by_cases hk : k.same (.str name) = true <;> simp [insert, hk, ih]

theorem mapM_insert {β : Type} {f : Key × α → Except Fault β} {value other : α}
    (h : es.field? name = some value) (same : f (.str name, other) = f (.str name, value)) :
    (es.insert (.str name) other).mapM f = es.mapM f := by
  induction es with
  | nil => cases h
  | cons e rest ih =>
    obtain ⟨k, v⟩ := e
    rw [field?_cons] at h
    unfold insert
    split at h
    · rename_i hk
      cases h
      rw [if_pos (Key.same_str_iff.mpr hk), List.mapM_cons, List.mapM_cons, hk, same]
    · rename_i hk
      rw [if_neg (mt Key.same_str_iff.mp hk), List.mapM_cons, List.mapM_cons, ih h]

theorem ofList_append_singleton (items : List (Key × α)) (key : Key) (value : α) :
    ofList (items ++ [(key, value)]) = (ofList items).insert key value := by
  simp [ofList]

end Entries

namespace Value

/-- The mapping with this value under a name. In a pair list, where the last entry of a name counts,
it is one more entry. -/
def withField (document : Value) (name : String) (value : Value) : Value :=
  match document with
  | .map es => .map (Entries.insert es (.str name) value)
  | .frozen es => .frozen (Entries.insert es (.str name) value)
  | .pairs items => .pairs (items ++ [entry (.str name) value])
  | other => other

theorem Lists.withField {document : Value} {listed : Entries Value} (h : document.Lists listed)
    (hw : document.isWellFormed = true) (name : String) (value : Value) :
    ∃ others, (document.withField name value).Lists others ∧
      Entries.ofList others = (Entries.ofList listed).insert (.str name) value := by
  have kept : Entries.distinct (listed.map (·.1)) = true →
      Entries.ofList (listed.insert (.str name) value) =
        (Entries.ofList listed).insert (.str name) value := fun hd => by
    rw [Entries.ofList_of_distinct _ (Entries.distinct_insert hd _ _),
      Entries.ofList_of_distinct _ hd]
  cases h with
  | map => exact ⟨_, Lists.map _, kept ((everyNode_map_iff listed).mp hw).1⟩
  | frozen => exact ⟨_, Lists.frozen _, kept ((everyNode_frozen_iff listed).mp hw).1⟩
  | pairs h =>
    refine ⟨_, Lists.pairs ?_, Entries.ofList_append_singleton listed (.str name) value⟩
    rw [keyedEntries_eq_ok_iff] at h ⊢
    exact List.rel_append h (.cons (split_entry _ _) .nil)

end Value

/-! The rules of the envelope do not see the definitions. -/

namespace Envelope

theorem view_shapes {value : Value} (h : value.hasEntries = true) :
    view (.str "shapes") value = .ok (.map []) := by
  rw [view, Key.str_same_self, h]
  rfl

theorem check_insert_shapes {ps : Entries Value} (h : ps.field? "shapes" = none) :
    check (.map (ps.insert (.str "shapes") (.map []))) = check (.map ps) := by
  have field : ∀ name rule, name ≠ "shapes" →
      Check.field (ps.insert (.str "shapes") (.map [])) name rule = Check.field ps name rule := by
    intro name rule hn
    rw [Check.field, Check.field, Entries.field?_insert, if_neg hn.symm]
  have shapes : Check.field (ps.insert (.str "shapes") (.map [])) "shapes" (.ofType .object) =
      Check.field ps "shapes" (.ofType .object) := by
    rw [Check.field, Check.field, Entries.field?_insert, if_pos rfl, h]
    rfl
  have missing : Check.missing ["smithy"] (ps.insert (.str "shapes") (.map [])) =
      Check.missing ["smithy"] ps := by
    rw [Check.missing, Check.missing, List.filter_singleton, List.filter_singleton,
      Entries.field?_insert, if_neg (by decide)]
  have unexpected : Check.unexpected ["smithy", "metadata", "shapes"]
      (ps.insert (.str "shapes") (.map [])) =
        Check.unexpected ["smithy", "metadata", "shapes"] ps := by
    simp [Check.unexpected, Entries.insert_of_field?_none h, Key.str_same_self]
  simp only [check, Check.record, List.flatMap_cons, List.flatMap_nil, List.map_cons, List.map_nil]
  rw [field "smithy" _ (by decide), field "metadata" _ (by decide), shapes, missing, unexpected]

/-- A document with a mapping of definitions has the issues of the document without any. -/
theorem issues_without_shapes [Visiting] {document : Entries Value}
    (h : ((document.field? "shapes").getD (.map [])).hasEntries = true) :
    issues (document.insert (.str "shapes") (.map [])) = issues document := by
  cases hf : document.field? "shapes" with
  | some value =>
    rw [hf, Option.getD_some] at h
    have empty : view (.str "shapes") (.map []) = .ok (.map []) := view_shapes rfl
    rw [issues_eq, issues_eq, Entries.mapM_insert hf]
    dsimp only
    rw [empty, view_shapes h]
  | none =>
    rw [issues_eq, issues_eq, Entries.insert_of_field?_none hf, List.mapM_append]
    generalize hm : List.mapM (m := Except Fault) _ document = viewed
    cases viewed with
    | error fault => rfl
    | ok ps =>
      have absent : Entries.field? ps "shapes" = none := (pointwise_of_mapM hm).field?_none hf
      have seen := congrArg (fun complaints => Except.ok (ε := Fault)
        (complaints.map Complaint.issue)) (check_insert_shapes absent)
      rw [Entries.insert_of_field?_none absent] at seen
      exact seen

end Envelope

/-- The verdict that follows from one on a document without definitions and from those on each
definition alone: a model if all of them have one, with the shapes of the latter. -/
def Verdict.followedBy (envelope : Verdict) (alone : List Verdict) : Verdict where
  model := do
    let model ← envelope.model
    let models ← alone.mapM Verdict.model
    return { model with shapes := models.flatMap (·.shapes) }
  issues := envelope.issues ++ alone.flatMap (·.issues)

/-- There is a model exactly if each of the parts has one. -/
theorem Verdict.isSome_followedBy_iff {envelope : Verdict} {alone : List Verdict} :
    (envelope.followedBy alone).model.isSome = true ↔
      envelope.model.isSome = true ∧ ∀ verdict ∈ alone, verdict.model.isSome = true := by
  have models : (alone.mapM Verdict.model).isSome = true ↔
      ∀ verdict ∈ alone, verdict.model.isSome = true := by
    induction alone with
    | nil => simp
    | cons verdict rest ih =>
      rw [List.mapM_cons, List.forall_mem_cons, ← ih]
      cases verdict.model <;> cases rest.mapM Verdict.model <;> simp
  rw [← models, followedBy]
  cases envelope.model <;> cases alone.mapM Verdict.model <;> simp

namespace Validation
variable {settings : Settings} {arrival : Schedule}

/-- The document that has this definition and no other. -/
def alone (e : Key × Value) : Value :=
  .map [(.str "smithy", .str "2.0"), (.str "shapes", .map [e])]

/-- The verdict on a document of this version and with these metadata. -/
def verdictOf (version : String) (metadata : Entries Value) (envelope : List Issue)
    (outcomes : List Outcome) : Verdict where
  model := if envelope = [] ∧ ∀ o ∈ outcomes, o.issues = [] then
    some ⟨version, metadata, typedShapes outcomes⟩ else none
  issues := envelope ++ outcomes.flatMap (·.issues)

theorem conclude_outcome {document metadata : Entries Value} {envelope : List Issue}
    (hm : envelope = [] → fixedMetadata document = .ok metadata) (outcomes : List Outcome) :
    (conclude document envelope outcomes).outcome = .ok (verdictOf
      (((document.field? "smithy").bind Value.str?).getD "") metadata envelope outcomes) := by
  by_cases h : envelope = [] ∧ ∀ o ∈ outcomes, o.issues = []
  · obtain ⟨rfl, ho⟩ := h
    rw [verdictOf, if_pos ⟨rfl, ho⟩, List.flatMap_eq_nil_iff.mpr ho, List.append_nil, conclude_iff]
    exact ⟨rfl, rfl, ho, metadata, hm rfl, rfl⟩
  · rw [verdictOf, if_neg h, conclude_eq_none_iff]
    refine ⟨rfl, fun hnil => h ?_⟩
    obtain ⟨he, ho⟩ := List.append_eq_nil_iff.mp hnil
    exact ⟨he, List.flatMap_eq_nil_iff.mp ho⟩

theorem mapM_model_verdictOf (version : String) (outcomes : List Outcome) :
    (outcomes.map fun o => verdictOf version [] [] [o]).mapM Verdict.model =
      if ∀ o ∈ outcomes, o.issues = [] then
        some (outcomes.map fun o => ⟨version, [], typedShapes [o]⟩) else none := by
  induction outcomes with
  | nil => simp
  | cons o rest ih =>
    rw [List.map_cons, List.mapM_cons, ih]
    have both := List.forall_mem_cons (p := fun o : Outcome => o.issues = []) (a := o) (l := rest)
    by_cases hr : ∀ o ∈ rest, o.issues = []
    · rw [if_pos hr]
      by_cases ho : o.issues = []
      · rw [if_pos (both.mpr ⟨ho, hr⟩)]
        simp [verdictOf, ho]
      · rw [if_neg fun h => ho (both.mp h).1]
        simp [verdictOf, ho]
    · rw [if_neg hr, if_neg fun h => hr (both.mp h).2]
      simp

/-- A verdict is put together from the verdicts on its parts. -/
theorem verdictOf_eq_followedBy (version : String) (metadata : Entries Value)
    (envelope : List Issue) (outcomes : List Outcome) :
    verdictOf version metadata envelope outcomes =
      (verdictOf version metadata envelope []).followedBy
        (outcomes.map fun o => verdictOf "2.0" [] [] [o]) := by
  have shapes : outcomes.flatMap (fun o => typedShapes [o]) = typedShapes outcomes := by
    induction outcomes with
    | nil => rfl
    | cons o rest ih =>
      rw [List.flatMap_cons, ih]
      exact List.filterMap_append.symm
  have issues : (outcomes.map fun o => verdictOf "2.0" [] [] [o]).flatMap (·.issues) =
      outcomes.flatMap (·.issues) := by
    simp [verdictOf, List.flatMap_map]
  rw [Verdict.followedBy, mapM_model_verdictOf, issues]
  by_cases ho : ∀ o ∈ outcomes, o.issues = []
  · rw [if_pos ho]
    by_cases he : envelope = []
    · rw [verdictOf, if_pos ⟨he, ho⟩]
      simp [verdictOf, he, List.flatMap_map, shapes]
    · rw [verdictOf, if_neg fun h => he h.1]
      simp [verdictOf, he]
  · rw [if_neg ho, verdictOf, if_neg fun h => ho h.2]
    simp [verdictOf]

theorem fixedMetadata_insert_shapes (document : Entries Value) (value : Value) :
    fixedMetadata (document.insert (.str "shapes") value) = fixedMetadata document := by
  rw [fixedMetadata, fixedMetadata, Entries.field?_insert, if_neg (by decide)]

section
variable [Visiting]

theorem alone_outcome {e : Key × Value} {outcome : Outcome} (h : Gives e outcome) :
    (validateWith arrival settings (alone e)).outcome =
      .ok (verdictOf "2.0" [] [] [outcome]) := by
  have looks : LooksAt (alone e) [e] := ⟨_, .map _, .map _, rfl⟩
  obtain ⟨listed, hl, run⟩ := outcome_of_looksAt looks
  obtain rfl := hl.unique (.map _)
  have hg : List.Forall₂ Gives [e] [outcome] := .cons h .nil
  have one : counted settings arrival [outcome] = [outcome] := by
    cases hr : outcome.rejected <;> simp [counted, upToRejected, hr]
  rw [run, shapes_outcome hg, one]
  exact conclude_outcome (fun _ => rfl) [outcome]

/-- The run on a document, from its parts. -/
theorem outcome_of_parts {document : Value} {listed definitions : Entries Value}
    {metadata : Entries Value} {envelope : List Issue} {outcomes : List Outcome}
    (hs : settings.failFast = false) (hl : document.Lists listed)
    (hd : (((Entries.ofList listed).field? "shapes").getD (.map [])).Lists definitions)
    (hdistinct : Entries.distinct (definitions.map (·.1)) = true)
    (he : Envelope.issues (Entries.ofList listed) = .ok envelope)
    (hm : envelope = [] → fixedMetadata (Entries.ofList listed) = .ok metadata)
    (hg : List.Forall₂ Gives definitions outcomes) :
    (validateWith arrival settings document).outcome = .ok (verdictOf
      ((((Entries.ofList listed).field? "smithy").bind Value.str?).getD "") metadata envelope
        outcomes) := by
  have all : counted settings arrival outcomes = outcomes := by simp [counted, hs]
  rw [outcome_of_lists hl, fields_of_distinct hd hdistinct, he, Fault.ok_bind, shapes_outcome hg,
    Fault.ok_bind, all]
  exact conclude_outcome hm outcomes

/-- What is fixed by a document before any definition is looked at: the same verdict on every choice
of definitions, but for what these have to add. -/
theorem exists_verdictOf {document : Value} (hw : document.isWellFormed = true)
    {definitions : Entries Value} (hl : LooksAt document definitions)
    (hs : settings.failFast = false) :
    ∃ version metadata envelope,
      (∀ outcomes, List.Forall₂ Gives definitions outcomes →
        (validateWith arrival settings document).outcome =
          .ok (verdictOf version metadata envelope outcomes)) ∧
      ∀ shapes others outcomes, LooksAt (document.withField "shapes" shapes) others →
        List.Forall₂ Gives others outcomes →
          (validateWith arrival settings (document.withField "shapes" shapes)).outcome =
            .ok (verdictOf version metadata envelope outcomes) := by
  obtain ⟨listed, hlist, hd, hdistinct⟩ := hl
  obtain ⟨envelope, he⟩ := Envelope.exists_issues (hlist.isWellFormed_ofList hw)
  obtain ⟨metadata, hm⟩ : ∃ metadata, envelope = [] →
      fixedMetadata (Entries.ofList listed) = .ok metadata := by
    by_cases hnil : envelope = []
    · subst hnil
      have ha := Envelope.accepts_of_issues he
      obtain ⟨metadata, hm⟩ := Model.exists_metadataSpelledIn ha.metadata
      exact ⟨metadata, fun _ => (fixedMetadata_eq_ok_iff ha).mpr hm⟩
    · exact ⟨[], fun h => absurd h hnil⟩
  refine ⟨_, metadata, envelope, fun outcomes hg =>
    outcome_of_parts hs hlist hd hdistinct he hm hg, ?_⟩
  rintro shapes others outcomes ⟨revised, hrevised, ho, hodistinct⟩ hg
  obtain ⟨revised', hrevised', hwritten⟩ := hlist.withField hw "shapes" shapes
  obtain rfl := hrevised.unique hrevised'
  have he' : Envelope.issues (Entries.ofList revised) = .ok envelope := by
    have without := Envelope.issues_without_shapes ho.hasEntries
    rw [hwritten, Entries.insert_insert, Envelope.issues_without_shapes hd.hasEntries] at without
    rw [hwritten, ← without, he]
  have hm' : envelope = [] → fixedMetadata (Entries.ofList revised) = .ok metadata := by
    rw [hwritten, fixedMetadata_insert_shapes]
    exact hm
  have version : (Entries.ofList revised).field? "smithy" =
      (Entries.ofList listed).field? "smithy" := by
    rw [hwritten, Entries.field?_insert, if_neg (by decide)]
  rw [← version]
  exact outcome_of_parts hs hrevised ho hodistinct he' hm' hg

end

end Validation

open Validation in
/-- Let no definition of a document fault, and let all shapes be taken into account. Then the run on
the document ends, and its verdict is the one on the document without definitions followed by those
on each definition alone, in the order of the document: so are its issues, and there is a model
exactly if all parts have one. With other definitions in the place of these, the verdict is still
made of the same first part and of what each definition has for itself. -/
theorem verdict_of_parts [Visiting] {document : Value} (hw : document.isWellFormed = true)
    {definitions : Entries Value} (hl : LooksAt document definitions) (h : EachParses document)
    (settings : Settings) (hs : settings.failFast = false) (arrival : Schedule) :
    ∃ (envelope : Verdict) (verdicts : List Verdict),
      (validateWith arrival settings (document.withField "shapes" (.map []))).outcome =
        .ok envelope ∧
      List.Forall₂ (fun e verdict => (validateWith arrival settings (alone e)).outcome =
        .ok verdict) definitions verdicts ∧
      (validateWith arrival settings document).outcome = .ok (envelope.followedBy verdicts) ∧
      ((envelope.followedBy verdicts).model.isSome = true ↔
        envelope.model.isSome = true ∧ ∀ verdict ∈ verdicts, verdict.model.isSome = true) ∧
      ∀ shapes others, LooksAt (document.withField "shapes" shapes) others →
        EachParses (document.withField "shapes" shapes) → ∃ verdicts' : List Verdict,
          List.Forall₂ (fun e verdict => (validateWith arrival settings (alone e)).outcome =
            .ok verdict) others verdicts' ∧
          (validateWith arrival settings (document.withField "shapes" shapes)).outcome =
            .ok (envelope.followedBy verdicts') := by
  obtain ⟨version, metadata, envelope, run, revised⟩ := exists_verdictOf hw hl hs
  have each : ∀ {es : Entries Value} {outcomes : List Outcome}, List.Forall₂ Gives es outcomes →
      List.Forall₂ (fun e verdict => (validateWith arrival settings (alone e)).outcome =
        .ok verdict) es (outcomes.map fun o => verdictOf "2.0" [] [] [o]) := fun hg => by
    rw [List.forall₂_map_right_iff]
    exact hg.imp fun _ _ h => alone_outcome h
  obtain ⟨outcomes, hg⟩ := exists_outcomes h hl
  have empty : LooksAt (document.withField "shapes" (.map [])) [] := by
    obtain ⟨listed, hlist, -, -⟩ := hl
    obtain ⟨without, hwithout, hwritten⟩ := hlist.withField hw "shapes" (.map [])
    refine ⟨without, hwithout, ?_, rfl⟩
    rw [hwritten, Entries.field?_insert, if_pos rfl]
    exact .map []
  refine ⟨_, _, revised _ _ _ empty .nil, each hg, ?_, Verdict.isSome_followedBy_iff,
    fun shapes others ho hp => ?_⟩
  · rw [run outcomes hg, verdictOf_eq_followedBy]
  · obtain ⟨outcomes', hg'⟩ := exists_outcomes hp ho
    refine ⟨_, each hg', ?_⟩
    rw [revised shapes others outcomes' ho hg', verdictOf_eq_followedBy]

open scoped Visiting in
open Validation in
/-- A document with a field too many, the first of whose definitions lacks its members. -/
theorem verdict_of_parts_one_rejected : ∃ (document : Value) (extra lacking : Issue)
    (shape : Shape),
    document = .frozen [(.str "smithy", .str "2.0"),
      (.str "shapes", .map [(.str "a#B", .map [(.str "type", .str "enum")]),
        (.str "a#C", .map [(.str "type", .str "blob")])]), (.str "extra", .int 1)] ∧
    document.isWellFormed = true ∧ EachParses document ∧
    (validate ⟨false, 1, "", ""⟩ (document.withField "shapes" (.map []))).outcome =
      .ok ⟨none, [extra]⟩ ∧
    (validate ⟨false, 1, "", ""⟩ (alone (.str "a#B", .map [(.str "type", .str "enum")]))).outcome =
      .ok ⟨none, [lacking]⟩ ∧
    (validate ⟨false, 1, "", ""⟩ (alone (.str "a#C", .map [(.str "type", .str "blob")]))).outcome =
      .ok ⟨some ⟨"2.0", [], [(⟨"a#C"⟩, shape)]⟩, []⟩ ∧
    (validate ⟨false, 1, "", ""⟩ document).outcome = .ok ⟨none, [extra, lacking]⟩ := by
  refine ⟨_, (Finding.fieldUnexpected (.str "extra")).issueAt [.str "extra"],
    (Finding.fieldMissing "members").issueAt [.str "shapes", .str "a#B", .str "members"],
    ⟨.simple .blob, [], []⟩, rfl, ?_⟩
  generalize hdocument : Value.frozen _ = document
  have hw : document.isWellFormed = true := by
    subst hdocument
    decide
  have looks : LooksAt document [(.str "a#B", .map [(.str "type", .str "enum")]),
      (.str "a#C", .map [(.str "type", .str "blob")])] := by
    subst hdocument
    exact ⟨_, .frozen _, .map _, rfl⟩
  have each : EachParses document := by
    intro definitions hl e he
    obtain rfl := looks.unique hl
    rcases List.mem_pair.mp he with rfl | rfl
    · exact ⟨_, rfl⟩
    · exact ⟨_, rfl⟩
  obtain ⟨envelope, verdicts, he, hv, run, -, -⟩ :=
    verdict_of_parts hw looks each ⟨false, 1, "", ""⟩ rfl .inOrder
  have he' : (validate ⟨false, 1, "", ""⟩ (document.withField "shapes" (.map []))).outcome =
      .ok ⟨none, [(Finding.fieldUnexpected (.str "extra")).issueAt [.str "extra"]]⟩ := by
    subst hdocument
    rfl
  obtain rfl := Except.ok.inj (he.symm.trans he')
  obtain _ | ⟨hb, _ | ⟨hc, _ | _⟩⟩ := hv
  have hb' : (validate ⟨false, 1, "", ""⟩
      (alone (.str "a#B", .map [(.str "type", .str "enum")]))).outcome = .ok ⟨none,
        [(Finding.fieldMissing "members").issueAt [.str "shapes", .str "a#B", .str "members"]]⟩ :=
    rfl
  have hc' : (validate ⟨false, 1, "", ""⟩
      (alone (.str "a#C", .map [(.str "type", .str "blob")]))).outcome =
        .ok ⟨some ⟨"2.0", [], [(⟨"a#C"⟩, ⟨.simple .blob, [], []⟩)]⟩, []⟩ := rfl
  obtain rfl := Except.ok.inj (hb.symm.trans hb')
  obtain rfl := Except.ok.inj (hc.symm.trans hc')
  exact ⟨hw, each, he', hb', hc', run⟩

end ServiceModel
