import ServiceModel.Proofs.Independence
import ServiceModel.Proofs.Naming
import ServiceModel.Proofs.Pointing
import ServiceModel.Proofs.Value.Repeats

/-!
# No definition is dropped

The definitions of a document are made into one mapping, in which the last definition of an id
counts. What is lost in this is reported: one issue for each id that is defined more than once. A
document with such an id is rejected for the ids alone, without a look at any definition; in every
other document all definitions are validated.
-/
namespace ServiceModel

namespace Definitions

/-- Under each id, where it first occurs, the definition that comes last. -/
def latest (definitions : Entries Value) : Entries Value :=
  (Entries.firsts definitions).map fun e => (e.1, (Entries.last? definitions e.1).getD e.2)

/-- One issue for each id that occurs more than once, in the order of first occurrence. -/
def repeats (definitions : Entries Value) (path : Path) : List Issue :=
  ((Entries.firsts definitions).filter fun e => 2 ≤ Entries.occurrences definitions e.1).map
    fun e => (Finding.shapeIdRepeated e.1.toValue (Entries.occurrences definitions e.1)).issueAt
      (path ++ [.str e.1.text])

theorem repeatedIssues_eq (definitions : Entries Value) (path : Path) :
    (repeatedIssues (definitions.map (·.1))).map (.under path) = repeats definitions path := by
  have counted : (Entries.count (definitions.map (·.1))).filter (fun e => e.2 > 1) =
      ((Entries.firsts definitions).filter fun e => 2 ≤ Entries.occurrences definitions e.1).map
        fun e => (e.1, Entries.occurrences definitions e.1) := by
    rw [Entries.count_eq, List.filter_map]
    have often (n : Nat) : max 1 n > 1 ↔ 2 ≤ n := by omega
    simp only [Function.comp_def, often]
    refine List.map_congr_left fun e he => ?_
    have twice : 2 ≤ Entries.occurrences definitions e.1 := by
      simpa using (List.mem_filter.mp he).2
    rw [Nat.max_eq_right (Nat.le_of_succ_le twice)]
  rw [repeatedIssues, counted, List.map_map, List.map_map]
  rfl

theorem repeats_eq_nil_iff {definitions : Entries Value} (path : Path) :
    repeats definitions path = [] ↔ Entries.distinct (definitions.map (·.1)) = true := by
  rw [← repeatedIssues_eq, List.map_eq_nil_iff, repeatedIssues_eq_nil_iff]

theorem latest_of_distinct {definitions : Entries Value}
    (h : Entries.distinct (definitions.map (·.1)) = true) : latest definitions = definitions := by
  rw [latest, ← Entries.ofList_eq, Entries.ofList_of_distinct definitions h]

theorem collect_entries {shapes : Value} {definitions : Entries Value}
    (h : shapes.itemsOrParts >>= Value.keyedEntries = .ok definitions) (path : Path) :
    collect shapes path = .ok (latest definitions, repeats definitions path) := by
  obtain ⟨items, hi, hk⟩ := Fault.bind_eq_ok_iff.mp h
  rw [collect, hi, Fault.ok_bind, hk, latest, ← Entries.ofList_eq, ← repeatedIssues_eq]
  rfl

end Definitions

theorem Value.lists_ofEntries {es : Entries Value} {shapes : Value}
    (h : ofEntries (es.map fun e => entry e.1.toValue e.2) = .ok shapes) : shapes.Lists es := by
  obtain rfl | rfl := ofEntries_cases h
  · exact .map es
  · exact .pairs (keyedEntries_entry es)

/-- The rules of the envelope ask of a mapping of definitions nothing about what it holds. -/
theorem Envelope.exists_issues_beside_shapes [Visiting] {document : Entries Value} {shapes : Value}
    (hd : Entries.distinct (document.map (·.1)) = true)
    (hf : document.field? "shapes" = some shapes) (hs : shapes.hasEntries = true)
    (hw : ∀ e ∈ document, e.1 ≠ .str "shapes" → e.2.isWellFormed = true) :
    ∃ issues, Envelope.issues document = .ok issues := by
  refine exists_issues_of_viewed fun e he => ?_
  by_cases hk : e.1 = .str "shapes"
  · have hv : document.field? "shapes" = some e.2 := Entries.field?_of_mem hd (hk ▸ he)
    obtain rfl := Option.some.inj (hf.symm.trans hv)
    exact ⟨_, hk ▸ view_shapes hs⟩
  · obtain ⟨p, hp⟩ := Value.exists_hasPlain_of_isWellFormed (hw e he hk)
    have unseen : e.1.same (.str "shapes") = false := by
      rwa [← Bool.not_eq_true, Key.same_str_iff]
    exact ⟨p, by rw [view, unseen]; exact hp⟩

namespace Validation
variable [Visiting]

/-! What the runs that end have validated, also where other definitions fault. -/

/-- The issues of all definitions or, if the work may end early, those of one that is rejected. -/
def Covers (failFast : Bool) (definitions : Entries Value) (issues : List Issue) : Prop :=
  issues = definitions.flatMap reported ∨
    failFast = true ∧ ∃ e ∈ definitions, reported e ≠ [] ∧ issues = reported e

theorem covers_of_gives {failFast : Bool} {definitions : Entries Value} {outcomes : List Outcome}
    (h : List.Forall₂ Gives definitions outcomes) :
    Covers failFast definitions (outcomes.flatMap (·.issues)) :=
  .inl (flatMap_reported h).symm

theorem Covers.cons {failFast : Bool} {definitions : Entries Value} {issues : List Issue}
    {e : Key × Value} (h : Covers failFast definitions issues)
    (he : failFast = true → reported e = []) :
    Covers failFast (e :: definitions) (reported e ++ issues) := by
  rcases h with rfl | ⟨hf, bad, hb, hr, rfl⟩
  · exact .inl List.flatMap_cons.symm
  · rw [he hf]
    exact .inr ⟨hf, bad, List.mem_cons_of_mem _ hb, hr, rfl⟩

theorem oneByOne_covers {failFast : Bool} {definitions : Entries Value} {outcomes : List Outcome}
    (h : (oneByOne failFast definitions).outcome = .ok outcomes) :
    Covers failFast definitions (outcomes.flatMap (·.issues)) := by
  induction definitions generalizing outcomes with
  | nil =>
    obtain rfl := Traced.outcome_pure_eq_ok_iff.mp h
    exact .inl rfl
  | cons e rest ih =>
    obtain ⟨o, ho, h⟩ := Traced.outcome_bind_eq_ok_iff.mp h
    have issues : o.issues = reported e := Gives.issues ho
    split at h
    · rename_i hstop
      obtain ⟨hf, hr⟩ := Bool.and_eq_true_iff.mp hstop
      obtain rfl := Traced.outcome_pure_eq_ok_iff.mp h
      rw [rejected_iff, issues] at hr
      exact .inr ⟨hf, e, List.mem_cons_self, hr, by simp [issues]⟩
    · rename_i hgo
      obtain ⟨more, hmore, h⟩ := Traced.outcome_bind_eq_ok_iff.mp h
      obtain rfl := Traced.outcome_pure_eq_ok_iff.mp h
      rw [List.flatMap_cons, issues]
      refine (ih hmore).cons fun hf => ?_
      simpa [hf, Outcome.rejected, issues] using hgo

theorem byWorkers_covers {failFast : Bool} {order : List Nat} {definitions : Entries Value}
    {outcomes : List Outcome} (complete : order.Perm (List.range definitions.length))
    (h : (byWorkers failFast order definitions).outcome = .ok outcomes) :
    Covers failFast definitions (outcomes.flatMap (·.issues)) := by
  cases hfirst : firstToHalt failFast order definitions with
  | some run =>
    obtain ⟨halts, e, he, rfl⟩ := exists_of_firstToHalt hfirst
    obtain ⟨o, ho, rfl⟩ := (byWorkers_of_some hfirst).mp h
    have issues : o.issues = reported e := Gives.issues ho
    obtain ⟨hf, hr⟩ : failFast = true ∧ o.rejected = true := by
      simpa [Workers.halts, ho] using halts
    rw [rejected_iff, issues] at hr
    exact .inr ⟨hf, e, he, hr, by simp [issues]⟩
  | none => exact covers_of_gives ((byWorkers_of_none complete hfirst).mp h)

theorem shapes_covers {settings : Settings} {arrival : Schedule}
    {definitions : Entries Value} {outcomes : List Outcome}
    (h : (shapes settings arrival definitions).outcome = .ok outcomes) :
    Covers settings.failFast definitions (outcomes.flatMap (·.issues)) := by
  obtain ⟨_, -, h⟩ := Traced.outcome_bind_eq_ok_iff.mp h
  split at h
  · exact byWorkers_covers (arrival.complete _) h
  · exact oneByOne_covers h

/-- Unless the work may end early, a run ends exactly if no definition faults. -/
theorem ends_iff {document definitions : Entries Value} {envelope : List Issue}
    {settings : Settings} {arrival : Schedule}
    (hd : ((document.field? "shapes").getD (.map [])).Lists definitions)
    (hdistinct : Entries.distinct (definitions.map (·.1)) = true)
    (he : Envelope.issues document = .ok envelope) (hs : settings.failFast = false) :
    (∃ verdict, (fields settings arrival document).outcome = .ok verdict) ↔
      ∀ e ∈ definitions, ∃ found, (Shape.parse e.2 (place e)).outcome = .ok found := by
  rw [fields_of_distinct hd hdistinct, he, Fault.ok_bind]
  constructor
  · rintro ⟨verdict, h⟩ e hm
    obtain ⟨outcomes, ho, -⟩ := Fault.bind_eq_ok_iff.mp h
    obtain ⟨outcome, -, hg⟩ := (gives_of_shapes hs ho).exists_of_mem_left hm
    exact exists_gives_iff.mp ⟨outcome, hg⟩
  · intro h
    obtain ⟨outcomes, hg⟩ := List.Forall₂.of_forall_exists fun e hm =>
      exists_gives_iff.mpr (h e hm)
    rw [shapes_outcome hg, Fault.ok_bind]
    have accepts : envelope = [] → Envelope.Accepts document := by
      rintro rfl
      exact Envelope.accepts_of_issues he
    exact (exists_conclude accepts).imp fun _ hv => hv.1

theorem covers_of_fields {document definitions : Entries Value} {envelope : List Issue}
    {settings : Settings} {arrival : Schedule} {verdict : Verdict}
    (hd : ((document.field? "shapes").getD (.map [])).Lists definitions)
    (hdistinct : Entries.distinct (definitions.map (·.1)) = true)
    (he : Envelope.issues document = .ok envelope)
    (h : (fields settings arrival document).outcome = .ok verdict) :
    ∃ issues, verdict.issues = envelope ++ issues ∧
      Covers settings.failFast definitions issues := by
  rw [fields_of_distinct hd hdistinct, he, Fault.ok_bind] at h
  obtain ⟨outcomes, ho, h⟩ := Fault.bind_eq_ok_iff.mp h
  exact ⟨_, issues_of_conclude h, shapes_covers ho⟩

/-- The shapes of a model stand under the ids of the definitions, in their order. -/
theorem ids_of_accepted {document : Value} {listed definitions : Entries Value}
    {settings : Settings} {arrival : Schedule} {model : Model} {issues : List Issue}
    (hl : document.Lists listed)
    (hd : (((Entries.ofList listed).field? "shapes").getD (.map [])).Lists definitions)
    (h : (validateWith arrival settings document).outcome = .ok ⟨some model, issues⟩) :
    definitions.map (·.1) = model.shapes.map fun s => .str s.1.text := by
  obtain ⟨-, listed', hl', spelled⟩ := validateWith_accepts_iff.mp h
  obtain rfl := hl.unique hl'
  obtain ⟨definitions', hd', -, hs⟩ := shapesSpelledIn_iff.mp spelled.shapes
  obtain rfl := hd.unique hd'
  exact hs.map_eq fun _ _ h => h.1

end Validation

open Validation in
/-- Made into one mapping, definitions are kept as they are if their ids are distinct; else there is
an issue for each id that occurs more than once, with its number of occurrences. A document with
such definitions has, under all settings, the verdict that lists the issues of the envelope and
these, whatever the definitions are. If the ids are distinct, all definitions are validated: the run
ends if none of them faults, it reports what is wrong with each of them or, in fail-fast mode, with
one, and a model has the shapes of all. -/
theorem no_definition_dropped [Visiting] (definitions : Entries Value) :
    (∀ path, Definitions.collect (.list (definitions.map fun e => .entry e.1.toValue e.2)) path =
      .ok (Definitions.latest definitions, Definitions.repeats definitions path)) ∧
    (∀ path, Definitions.repeats definitions path = [] ↔
      Entries.distinct (definitions.map (·.1)) = true) ∧
    (Entries.distinct (definitions.map (·.1)) = true →
      Definitions.latest definitions = definitions) ∧
    ∃ shapes, Value.ofEntries (definitions.map fun e => .entry e.1.toValue e.2) = .ok shapes ∧
      (∀ path, Definitions.collect shapes path =
        .ok (Definitions.latest definitions, Definitions.repeats definitions path)) ∧
      ∀ (document : Value) (listed : Entries Value), document.Lists listed →
        (Entries.ofList listed).field? "shapes" = some shapes →
        (∀ e ∈ Entries.ofList listed, e.1 ≠ .str "shapes" → e.2.isWellFormed = true) →
        ∃ envelope, Envelope.issues (Entries.ofList listed) = .ok envelope ∧
          ∀ (arrival : Schedule) (settings : Settings),
            (Entries.distinct (definitions.map (·.1)) = false →
              (validateWith arrival settings document).outcome =
                .ok ⟨none, envelope ++ Definitions.repeats definitions shapesPath⟩) ∧
            (Entries.distinct (definitions.map (·.1)) = true →
              (settings.failFast = false →
                ((∃ verdict, (validateWith arrival settings document).outcome = .ok verdict) ↔
                  ∀ e ∈ definitions, ∃ found, (Shape.parse e.2 (place e)).outcome = .ok found)) ∧
              ∀ verdict, (validateWith arrival settings document).outcome = .ok verdict →
                (∃ issues, verdict.issues = envelope ++ issues ∧
                  Covers settings.failFast definitions issues) ∧
                ∀ model, verdict.model = some model →
                  definitions.map (·.1) = model.shapes.map fun s => .str s.1.text) := by
  have entries : Value.keyedEntries (definitions.map fun e => .entry e.1.toValue e.2) =
    .ok definitions := Value.keyedEntries_entry definitions
  refine ⟨Definitions.collect_entries entries, Definitions.repeats_eq_nil_iff,
    Definitions.latest_of_distinct, _, Value.ofEntries_entry definitions, ?_⟩
  have hs := Value.lists_ofEntries (Value.ofEntries_entry definitions)
  generalize (if Entries.distinct (definitions.map (·.1)) then Value.map definitions
    else Value.pairs (definitions.map fun e => .entry e.1.toValue e.2)) = shapes at hs ⊢
  constructor
  · obtain ⟨items, hi, hk⟩ := Value.lists_iff.mp hs
    refine Definitions.collect_entries (Fault.bind_eq_ok_iff.mpr ⟨items, ?_, hk⟩)
    simp [Value.itemsOrParts, hi]
  intro document listed hl hf hw
  obtain ⟨envelope, he⟩ := Envelope.exists_issues_beside_shapes (Entries.distinct_ofList listed) hf
    hs.hasEntries hw
  have hd : (((Entries.ofList listed).field? "shapes").getD (.map [])).Lists definitions := by
    rwa [hf]
  refine ⟨envelope, he, fun arrival settings => ⟨fun hrepeat => ?_, fun hdistinct =>
    ⟨fun hsettings => ?_, fun verdict run => ⟨?_, fun model hmodel => ?_⟩⟩⟩⟩
  · have hr : Definitions.repeatedIssues (definitions.map (·.1)) ≠ [] := by
      rw [ne_eq, Definitions.repeatedIssues_eq_nil_iff, hrepeat]
      exact Bool.false_ne_true
    rw [outcome_of_lists hl, fields_of_repeated hd hr, he, Definitions.repeatedIssues_eq]
    rfl
  · rw [outcome_of_lists hl]
    exact ends_iff hd hdistinct he hsettings
  · rw [outcome_of_lists hl] at run
    exact covers_of_fields hd hdistinct he run
  · obtain ⟨_, issues⟩ := verdict
    obtain rfl := hmodel
    exact ids_of_accepted hl hd run

open scoped Visiting in
open Validation in
/-- Two ids, each of them twice, one also as the truth value that equals it, and a definition that
faults when it is read; then two distinct ids, the first of which lacks its members. -/
theorem no_definition_dropped_of_six :
    (∃ (definitions : Entries Value) (document : Value),
      definitions = [(.int 1, .pairs [.int 0]), (.str "a#B", .null), (.scalar (.bool true), .null),
        (.str "a#B", .pairs [.int 0])] ∧
      document = .map [(.str "smithy", .int 2),
        (.str "shapes", .pairs (definitions.map fun e => .entry e.1.toValue e.2))] ∧
      Entries.distinct (definitions.map (·.1)) = false ∧
      (validateWith .reversed ⟨true, 2, "", ""⟩ document).outcome = .ok ⟨none,
        [(Finding.wrongType (.int 2) .string).issueAt [.str "smithy"],
          (Finding.shapeIdRepeated (.int 1) 2).issueAt [.str "shapes", .str "1"],
          (Finding.shapeIdRepeated (.str "a#B") 2).issueAt [.str "shapes", .str "a#B"]]⟩) ∧
    ∃ (definitions : Entries Value) (document : Value) (verdict : Verdict),
      definitions = [(.str "a#B", .map [(.str "type", .str "enum")]),
        (.str "a#C", .map [(.str "type", .str "blob")])] ∧
      document = .map [(.str "smithy", .int 2), (.str "shapes", .map definitions)] ∧
      Entries.distinct (definitions.map (·.1)) = true ∧
      (validate ⟨false, 1, "", ""⟩ document).outcome = .ok verdict ∧
      verdict.issues = [(Finding.wrongType (.int 2) .string).issueAt [.str "smithy"],
        (Finding.fieldMissing "members").issueAt
          [.str "shapes", .str "a#B", .str "members"]] := by
  constructor
  · refine ⟨_, _, rfl, rfl, rfl, ?_⟩
    obtain ⟨-, -, -, shapes, hshapes, -, validated⟩ := no_definition_dropped
      [(.int 1, .pairs [.int 0]), (.str "a#B", .null), (.scalar (.bool true), .null),
        (.str "a#B", .pairs [.int 0])]
    obtain rfl := Except.ok.inj hshapes
    obtain ⟨envelope, he, run⟩ := validated _ _ (.map [(.str "smithy", .int 2),
      (.str "shapes", .pairs _)]) rfl (by decide)
    obtain rfl := Except.ok.inj he
    exact (run _ _).1 rfl
  · obtain ⟨-, -, -, shapes, hshapes, -, validated⟩ := no_definition_dropped
      [(.str "a#B", .map [(.str "type", .str "enum")]),
        (.str "a#C", .map [(.str "type", .str "blob")])]
    obtain rfl := Except.ok.inj hshapes
    obtain ⟨envelope, he, run⟩ := validated _ _ (.map [(.str "smithy", .int 2),
      (.str "shapes", .map _)]) rfl (by decide)
    obtain rfl := Except.ok.inj he
    obtain ⟨ends, covers⟩ := (run .inOrder ⟨false, 1, "", ""⟩).2 rfl
    obtain ⟨verdict, hv⟩ := (ends rfl).mpr fun e hm => by
      rcases List.mem_pair.mp hm with rfl | rfl
      · exact ⟨_, rfl⟩
      · exact ⟨_, rfl⟩
    obtain ⟨⟨issues, hissues, rfl | ⟨hf, -⟩⟩, -⟩ := covers verdict hv
    · exact ⟨_, _, verdict, rfl, rfl, rfl, hv, hissues⟩
    · cases hf

end ServiceModel
