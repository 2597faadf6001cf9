import ServiceModel.Proofs.Document.Acceptance

/-!
# The outcomes that count

Where no definition faults, each has an outcome of its own, and a schedule only chooses which of
these outcomes count: all of them, those up to the first rejected one, or the rejected one that a
worker came in with first. A document whose definitions are not looked at has the same verdict under
every schedule.
-/
namespace ServiceModel.Validation

def place (e : Key × Value) : Path := shapesPath ++ [.str e.1.text]

section
variable [Visiting]

/-- The issues of one definition under its id. -/
def reported (e : Key × Value) : List Issue :=
  idIssues e.1 (place e) ++ (Shape.parse e.2 (place e)).trace

def Gives (e : Key × Value) (outcome : Outcome) : Prop := (single e.1 e.2).outcome = .ok outcome

theorem gives_iff {e : Key × Value} {outcome : Outcome} : Gives e outcome ↔
    ∃ found, (Shape.parse e.2 (place e)).outcome = .ok found ∧
      outcome = ⟨e.1, if reported e = [] then found else none, reported e⟩ := by
  have conclusion : ∀ (found : Option Shape) (o : Outcome),
      (if (reported e).isEmpty then (pure ⟨e.1, found, []⟩ : Run Outcome)
        else do
          log Place.shapeRejected Log.Level.debug
            s!"Shape '{e.1.text}' rejected with {(reported e).length} issue(s)"
          return ⟨e.1, none, reported e⟩).outcome = .ok o ↔
        o = ⟨e.1, if reported e = [] then found else none, reported e⟩ := by
    intro found o
    by_cases h : reported e = []
    · rw [h, if_pos List.isEmpty_nil, if_pos rfl, Traced.outcome_pure_eq_ok_iff, eq_comm]
    · rw [if_neg (by simpa using h), if_neg h, Traced.outcome_bind_eq_ok_iff]
      simp only [Traced.outcome_pure_eq_ok_iff, @eq_comm _ o]
      exact ⟨fun ⟨_, _, ho⟩ => ho, fun ho => ⟨(), rfl, ho⟩⟩
  rw [Gives, single, Traced.outcome_bind_eq_ok_iff]
  simp only [Traced.outcome_bind_eq_ok_iff]
  constructor
  · rintro ⟨_, -, found, hf, h⟩
    exact ⟨found, hf, (conclusion found outcome).mp h⟩
  · rintro ⟨found, hf, h⟩
    exact ⟨(), rfl, found, hf, (conclusion found outcome).mpr h⟩

theorem exists_gives_iff {e : Key × Value} : (∃ outcome, Gives e outcome) ↔
    ∃ found, (Shape.parse e.2 (place e)).outcome = .ok found := by
  simp only [gives_iff]
  constructor
  · rintro ⟨_, found, hf, -⟩
    exact ⟨found, hf⟩
  · rintro ⟨found, hf⟩
    exact ⟨_, found, hf, rfl⟩

theorem Gives.issues {e : Key × Value} {outcome : Outcome} (h : Gives e outcome) :
    outcome.issues = reported e := by
  obtain ⟨_, -, rfl⟩ := gives_iff.mp h
  rfl

end

theorem rejected_iff {outcome : Outcome} : outcome.rejected = true ↔ outcome.issues ≠ [] := by
  simp [Outcome.rejected]

/-! Which outcomes count. -/

/-- The outcomes up to the first rejected one, that one included. -/
def upToRejected : List Outcome → List Outcome
  | [] => []
  | outcome :: rest => if outcome.rejected then [outcome] else outcome :: upToRejected rest

theorem upToRejected_of_none {outcomes : List Outcome} (h : ∀ o ∈ outcomes, o.rejected = false) :
    upToRejected outcomes = outcomes := by
  induction outcomes with
  | nil => rfl
  | cons o rest ih =>
    obtain ⟨ho, hrest⟩ := List.forall_mem_cons.mp h
    simp [upToRejected, ho, ih hrest]

theorem upToRejected_append {before after : List Outcome} {bad : Outcome}
    (hb : ∀ o ∈ before, o.rejected = false) (h : bad.rejected = true) :
    upToRejected (before ++ bad :: after) = before ++ [bad] := by
  induction before with
  | nil => simp [upToRejected, h]
  | cons o rest ih =>
    obtain ⟨ho, hrest⟩ := List.forall_mem_cons.mp hb
    simp [upToRejected, ho, ih hrest]

/-- The rejected outcome that comes in first, if workers come in in this order of positions. -/
def firstIn (arrival : List Nat) (outcomes : List Outcome) : Option Outcome :=
  (arrival.filterMap fun n => outcomes[n]?).find? Outcome.rejected

/-- The outcomes that count when workers come in in this order of positions. -/
def upToArrival (arrival : List Nat) (outcomes : List Outcome) : List Outcome :=
  match firstIn arrival outcomes with
  | some outcome => [outcome]
  | none => outcomes

/-- The outcomes that count under the settings. -/
def counted (settings : Settings) (arrival : Schedule) (outcomes : List Outcome) :
    List Outcome :=
  if settings.failFast then
    if settings.maxWorkers > 1 && outcomes.length > 1 then
      upToArrival (arrival.order outcomes.length) outcomes
    else upToRejected outcomes
  else outcomes

section
variable [Visiting] {failFast : Bool} {entries : Entries Value} {outcomes : List Outcome}

theorem oneByOne_outcome (h : List.Forall₂ Gives entries outcomes) :
    (oneByOne failFast entries).outcome =
      .ok (if failFast then upToRejected outcomes else outcomes) := by
  induction h with
  | nil => cases failFast <;> rfl
  | @cons e o rest more he _ ih =>
    obtain ⟨key, node⟩ := e
    have ho : (single key node).outcome = .ok o := he
    rw [oneByOne, Traced.outcome_bind_eq_ok_iff]
    refine ⟨o, ho, ?_⟩
    cases hf : failFast && o.rejected with
    | true =>
      obtain ⟨rfl, hr⟩ := Bool.and_eq_true_iff.mp hf
      simp [upToRejected, hr, Traced.outcome_pure_eq_ok_iff]
    | false =>
      rw [if_neg Bool.false_ne_true, Traced.outcome_bind_eq_ok_iff]
      refine ⟨_, ih, Traced.outcome_pure_eq_ok_iff.mpr ?_⟩
      cases failFast with
      | false => rfl
      | true => simp_all [upToRejected]

theorem firstToHalt_rel (failFast : Bool) (order : List Nat)
    (h : List.Forall₂ Gives entries outcomes) :
    Option.Rel (fun (run : Run Outcome) o => run.outcome = .ok o)
      (firstToHalt failFast order entries)
      ((order.filterMap fun n => outcomes[n]?).find? fun o => failFast && o.rejected) := by
  have runs : List.Forall₂ (fun (run : Run Outcome) o => run.outcome = .ok o)
      (entries.map fun e => single e.1 e.2) outcomes := List.forall₂_map_left_iff.mpr h
  exact (runs.filterMap_getElem? order).find? fun run o ho => by simp [Workers.halts, ho]

theorem byWorkers_outcome {order : List Nat} (complete : order.Perm (List.range entries.length))
    (h : List.Forall₂ Gives entries outcomes) :
    (byWorkers failFast order entries).outcome =
      .ok (if failFast then upToArrival order outcomes else outcomes) := by
  have first := firstToHalt_rel failFast order h
  cases failFast with
  | false =>
    have nothing : (order.filterMap fun n => outcomes[n]?).find?
        (fun o => false && o.rejected) = none := List.find?_eq_none.mpr fun _ _ => by simp
    rw [nothing] at first
    generalize hfirst : firstToHalt false order entries = found at first
    cases first
    exact (byWorkers_of_none complete hfirst).mpr h
  | true =>
    simp only [Bool.true_and] at first
    change Option.Rel _ _ (firstIn order outcomes) at first
    rw [if_pos rfl, upToArrival]
    generalize firstIn order outcomes = chosen at first ⊢
    generalize hfirst : firstToHalt true order entries = found at first
    cases first with
    | none => exact (byWorkers_of_none complete hfirst).mpr h
    | some ho => exact (byWorkers_of_some hfirst).mpr ⟨_, ho, rfl⟩

theorem shapes_outcome {settings : Settings} {arrival : Schedule}
    (h : List.Forall₂ Gives entries outcomes) :
    (shapes settings arrival entries).outcome = .ok (counted settings arrival outcomes) := by
  rw [shapes, Traced.outcome_bind_eq_ok_iff]
  refine ⟨(), rfl, ?_⟩
  rw [counted, ← h.length_eq]
  split
  · rw [byWorkers_outcome (arrival.complete _) h]
  · rw [oneByOne_outcome h]

end

/-! A run that does not stop early has the outcomes of all definitions. -/

section
variable [Visiting]

theorem gives_of_oneByOne {entries : Entries Value} {outcomes : List Outcome}
    (h : (oneByOne false entries).outcome = .ok outcomes) :
    List.Forall₂ Gives entries outcomes := by
  induction entries generalizing outcomes with
  | nil =>
    obtain rfl := Traced.outcome_pure_eq_ok_iff.mp h
    exact .nil
  | cons e rest ih =>
    obtain ⟨o, ho, h⟩ := Traced.outcome_bind_eq_ok_iff.mp h
    obtain ⟨more, hmore, h⟩ := Traced.outcome_bind_eq_ok_iff.mp h
    obtain rfl := Traced.outcome_pure_eq_ok_iff.mp h
    exact .cons ho (ih hmore)

theorem gives_of_byWorkers {order : List Nat} {entries : Entries Value} {outcomes : List Outcome}
    (complete : order.Perm (List.range entries.length))
    (h : (byWorkers false order entries).outcome = .ok outcomes) :
    List.Forall₂ Gives entries outcomes := by
  cases hfirst : firstToHalt false order entries with
  | some run =>
    obtain ⟨halts, -⟩ := exists_of_firstToHalt hfirst
    obtain ⟨o, ho, -⟩ := (byWorkers_of_some hfirst).mp h
    simp [Workers.halts, ho] at halts
  | none => exact (byWorkers_of_none complete hfirst).mp h

theorem gives_of_shapes {settings : Settings} {arrival : Schedule} {entries : Entries Value}
    {outcomes : List Outcome} (hf : settings.failFast = false)
    (h : (shapes settings arrival entries).outcome = .ok outcomes) :
    List.Forall₂ Gives entries outcomes := by
  obtain ⟨_, -, h⟩ := Traced.outcome_bind_eq_ok_iff.mp h
  rw [hf] at h
  split at h
  · exact gives_of_byWorkers (arrival.complete _) h
  · exact gives_of_oneByOne h

end

/-! What the outcomes that count report. -/

section
variable {settings : Settings} {arrival : Schedule} {outcomes : List Outcome}

theorem mem_of_firstIn {positions : List Nat} {outcome : Outcome}
    (h : firstIn positions outcomes = some outcome) :
    outcome ∈ outcomes ∧ outcome.rejected = true := by
  obtain ⟨n, -, hn⟩ := List.mem_filterMap.mp (List.mem_of_find?_eq_some h)
  exact ⟨List.mem_of_getElem? hn, List.find?_some h⟩

theorem counted_of_none (h : ∀ o ∈ outcomes, o.rejected = false) :
    counted settings arrival outcomes = outcomes := by
  have first : ∀ positions, upToArrival positions outcomes = outcomes := by
    intro positions
    unfold upToArrival
    split
    · rename_i o ho
      obtain ⟨hm, hr⟩ := mem_of_firstIn ho
      rw [h o hm] at hr
      cases hr
    · rfl
  unfold counted
  rw [first, upToRejected_of_none h]
  split <;> simp

theorem exists_first_rejected (h : ¬ ∀ o ∈ outcomes, o.rejected = false) :
    ∃ before bad after, outcomes = before ++ bad :: after ∧
      (∀ o ∈ before, o.rejected = false) ∧ bad.rejected = true := by
  cases hf : outcomes.find? Outcome.rejected with
  | none =>
    refine absurd (fun o ho => ?_) h
    simpa using List.find?_eq_none.mp hf o ho
  | some bad =>
    obtain ⟨hr, before, after, rfl, hb⟩ := List.find?_eq_some_iff_append.mp hf
    exact ⟨before, bad, after, rfl, fun o ho => by simpa using hb o ho, hr⟩

theorem flatMap_issues_eq_nil (h : ∀ o ∈ outcomes, o.rejected = false) :
    outcomes.flatMap (·.issues) = [] := by
  refine List.flatMap_eq_nil_iff.mpr fun o ho => ?_
  by_contra hne
  rw [← ne_eq, ← rejected_iff, h o ho] at hne
  cases hne

/-- What comes after the first rejected outcome is all that is left out. -/
theorem exists_upToRejected_append (outcomes : List Outcome) :
    ∃ rest, outcomes = upToRejected outcomes ++ rest ∧
      ((upToRejected outcomes).flatMap (·.issues) = [] → rest = []) := by
  by_cases hnone : ∀ o ∈ outcomes, o.rejected = false
  · exact ⟨[], by simp [upToRejected_of_none hnone], fun _ => rfl⟩
  · obtain ⟨before, bad, after, rfl, hb, hr⟩ := exists_first_rejected hnone
    refine ⟨after, by simp [upToRejected_append hb hr], fun h => ?_⟩
    rw [upToRejected_append hb hr, List.flatMap_append] at h
    exact absurd (by simpa using (List.append_eq_nil_iff.mp h).2) (rejected_iff.mp hr)

/-- Where at most one outcome is rejected, those that count report everything. -/
theorem issues_counted_of_le_one (h : outcomes.countP Outcome.rejected ≤ 1) :
    (counted settings arrival outcomes).flatMap (·.issues) = outcomes.flatMap (·.issues) := by
  by_cases hnone : ∀ o ∈ outcomes, o.rejected = false
  · rw [counted_of_none hnone]
  obtain ⟨before, bad, after, rfl, hb, hr⟩ := exists_first_rejected hnone
  have ha : ∀ o ∈ after, o.rejected = false := by
    rw [List.countP_append, List.countP_cons_of_pos hr] at h
    have hz : after.countP Outcome.rejected = 0 := by omega
    simpa using List.countP_eq_zero.mp hz
  have all : (before ++ bad :: after).flatMap (·.issues) = bad.issues := by
    simp [flatMap_issues_eq_nil hb, flatMap_issues_eq_nil ha]
  have first : ∀ positions,
      (upToArrival positions (before ++ bad :: after)).flatMap (·.issues) = bad.issues := by
    intro positions
    unfold upToArrival
    split
    · rename_i o ho
      obtain ⟨hm, hro⟩ := mem_of_firstIn ho
      have : o = bad := by
        rcases List.mem_append.mp hm with hm | hm
        · rw [hb o hm] at hro
          cases hro
        rcases List.mem_cons.mp hm with rfl | hm
        · rfl
        · rw [ha o hm] at hro
          cases hro
      simp [this]
    · exact all
  unfold counted
  rw [all]
  split
  · split
    · exact first _
    · rw [upToRejected_append hb hr]
      simp [flatMap_issues_eq_nil hb]
  · exact all

end

/-! The definitions of a document that are looked at. -/

/-- The definitions are looked at if they are a mapping that repeats no id. -/
def LooksAt (document : Value) (definitions : Entries Value) : Prop :=
  ∃ fields, document.Lists fields ∧
    (((Entries.ofList fields).field? "shapes").getD (.map [])).Lists definitions ∧
    Entries.distinct (definitions.map (·.1)) = true

section
variable [Visiting]

/-- No definition that is looked at faults. -/
def EachParses (document : Value) : Prop :=
  ∀ definitions, LooksAt document definitions → ∀ e ∈ definitions,
    ∃ found, (Shape.parse e.2 (place e)).outcome = .ok found

theorem outcome_of_not_hasEntries {document : Value} (h : document.hasEntries = false)
    (arrival : Schedule) (settings : Settings) :
    (validateWith arrival settings document).outcome =
      .ok ⟨none, [(Finding.documentNotMapping document).issueAt []]⟩ := by
  rw [← Value.items?_isSome, Option.isSome_eq_false_iff, Option.isNone_iff_eq_none] at h
  unfold validateWith
  rw [h]
  rfl

theorem outcome_of_lists {document : Value} {listed : Entries Value} (h : document.Lists listed)
    (arrival : Schedule) (settings : Settings) :
    (validateWith arrival settings document).outcome =
      (fields settings arrival (Entries.ofList listed)).outcome := by
  obtain ⟨items, hi, hk⟩ := Value.lists_iff.mp h
  unfold validateWith
  rw [hi]
  dsimp only
  rw [Traced.outcome_bind, Traced.outcome_lift, hk, Fault.ok_bind]

/-- Shapes that are no mapping are not looked at. -/
theorem fields_of_not_hasEntries {document : Entries Value}
    (h : ((document.field? "shapes").getD (.map [])).hasEntries = false)
    (arrival : Schedule) (settings : Settings) :
    (fields settings arrival document).outcome = (do
      let envelope ← Envelope.issues document
      return ⟨none, envelope⟩) := by
  rw [fields, Traced.outcome_bind, Traced.outcome_lift]
  refine congrArg _ (funext fun envelope => ?_)
  dsimp only
  rw [h, Bool.not_false, if_pos rfl]
  rfl

theorem fields_of_distinct {document definitions : Entries Value}
    (h : ((document.field? "shapes").getD (.map [])).Lists definitions)
    (hd : Entries.distinct (definitions.map (·.1)) = true) (arrival : Schedule)
    (settings : Settings) : (fields settings arrival document).outcome = (do
      let envelope ← Envelope.issues document
      let outcomes ← (shapes settings arrival definitions).outcome
      (conclude document envelope outcomes).outcome) := by
  have hraw := h.hasEntries
  have hcollect : Definitions.collect _ shapesPath = .ok (definitions, []) :=
    (Definitions.collect_iff hraw).mpr ⟨h, hd⟩
  rw [fields, Traced.outcome_bind, Traced.outcome_lift]
  refine congrArg _ (funext fun envelope => ?_)
  dsimp only
  rw [hraw, Bool.not_true, if_neg Bool.false_ne_true, Traced.outcome_bind, Traced.outcome_lift,
    hcollect, Fault.ok_bind]
  dsimp only
  rw [if_pos List.isEmpty_nil, Traced.outcome_bind]

theorem outcome_of_looksAt {document : Value} {definitions : Entries Value}
    (h : LooksAt document definitions) : ∃ listed, document.Lists listed ∧ ∀ arrival settings,
      (validateWith arrival settings document).outcome = (do
        let envelope ← Envelope.issues (Entries.ofList listed)
        let outcomes ← (shapes settings arrival definitions).outcome
        (conclude (Entries.ofList listed) envelope outcomes).outcome) := by
  obtain ⟨listed, hl, hd, hdistinct⟩ := h
  refine ⟨listed, hl, fun arrival settings => ?_⟩
  rw [outcome_of_lists hl, fields_of_distinct hd hdistinct]

/-- Where no definition is looked at, the settings do not matter. -/
theorem outcome_of_not_looksAt {document : Value}
    (h : ∀ definitions, ¬ LooksAt document definitions)
    (arrival arrival' : Schedule) (settings settings' : Settings) :
    (validateWith arrival settings document).outcome =
      (validateWith arrival' settings' document).outcome := by
  cases hi : document.items? with
  | none =>
    have hentries : document.hasEntries = false := by rw [← Value.items?_isSome, hi]; rfl
    rw [outcome_of_not_hasEntries hentries, outcome_of_not_hasEntries hentries]
  | some items =>
    cases hk : Value.keyedEntries items with
    | error fault =>
      unfold validateWith
      rw [hi]
      dsimp only
      rw [Traced.outcome_bind, Traced.outcome_bind, Traced.outcome_lift, hk, Fault.error_bind,
        Fault.error_bind]
    | ok listed =>
      have hl : document.Lists listed := Value.lists_iff.mpr ⟨items, hi, hk⟩
      rw [outcome_of_lists hl, outcome_of_lists hl]
      cases hraw : (((Entries.ofList listed).field? "shapes").getD (.map [])).hasEntries with
      | false => rw [fields_of_not_hasEntries hraw, fields_of_not_hasEntries hraw]
      | true =>
        rw [fields, fields, Traced.outcome_bind, Traced.outcome_bind]
        refine congrArg _ (funext fun envelope => ?_)
        dsimp only
        rw [hraw, Bool.not_true, if_neg Bool.false_ne_true, if_neg Bool.false_ne_true,
          Traced.outcome_bind, Traced.outcome_bind, Traced.outcome_lift]
        cases hc : Definitions.collect
            (((Entries.ofList listed).field? "shapes").getD (.map [])) shapesPath with
        | error fault => rw [Fault.error_bind, Fault.error_bind]
        | ok collected =>
          obtain ⟨definitions, repeated⟩ := collected
          rw [Fault.ok_bind, Fault.ok_bind]
          dsimp only
          have hr : ¬ repeated.isEmpty = true := by
            intro hr
            obtain rfl := List.isEmpty_iff.mp hr
            obtain ⟨hdefinitions, hdistinct⟩ := (Definitions.collect_iff hraw).mp hc
            exact h definitions ⟨listed, hl, hdefinitions, hdistinct⟩
          rw [if_neg hr, if_neg hr]

end

theorem LooksAt.unique {document : Value} {definitions others : Entries Value}
    (h : LooksAt document definitions) (h' : LooksAt document others) : definitions = others := by
  obtain ⟨fields, hl, hd, -⟩ := h
  obtain ⟨fields', hl', hd', -⟩ := h'
  obtain rfl := hl.unique hl'
  exact hd.unique hd'

theorem conclude_eq_none_iff {document : Entries Value} {envelope issues : List Issue}
    {outcomes : List Outcome} : (conclude document envelope outcomes).outcome = .ok ⟨none, issues⟩ ↔
      issues = envelope ++ outcomes.flatMap (·.issues) ∧ issues ≠ [] := by
  unfold conclude
  dsimp only
  by_cases h : envelope ++ outcomes.flatMap (·.issues) = []
  · rw [h, if_pos List.isEmpty_nil, Traced.outcome_bind_eq_ok_iff]
    constructor
    · rintro ⟨_, -, hr⟩
      obtain ⟨_, -, hr⟩ := Traced.outcome_bind_eq_ok_iff.mp hr
      cases Traced.outcome_pure_eq_ok_iff.mp hr
    · rintro ⟨hi, hne⟩
      exact absurd hi hne
  · rw [if_neg (by simpa using h), Traced.outcome_bind_eq_ok_iff]
    constructor
    · rintro ⟨_, -, hr⟩
      cases Traced.outcome_pure_eq_ok_iff.mp hr
      exact ⟨rfl, h⟩
    · rintro ⟨rfl, -⟩
      exact ⟨(), rfl, rfl⟩

end ServiceModel.Validation
