import ServiceModel.Document.Validation
import ServiceModel.Proofs.Document.Workers
import ServiceModel.Proofs.Shape.Acceptance

/-!
# Every schedule accepts the same shapes

Shapes are validated one by one or by workers, to the end or up to the first rejection. If no shape
is rejected none of this matters: the outcomes are those of the single shapes, in the order of the
document. Conversely a schedule in which nothing is rejected has looked at every shape.
-/
namespace ServiceModel.Validation

def Passes [Visiting] (e : Key × Value) (outcome : Outcome) : Prop :=
  (single e.1 e.2).outcome = .ok outcome ∧ outcome.issues = []

theorem idIssues_eq_nil_iff {key : Key} {path : Path} :
    idIssues key path = [] ↔ ∃ id : AbsoluteId, key = .str id.text ∧ id.Accepted := by
  have spelled : (∃ id : AbsoluteId, Token.parse .absoluteId key.toValue = .ok id) ↔
      ∃ id : AbsoluteId, key = .str id.text ∧ id.Accepted := by
    refine exists_congr fun id => ?_
    rw [Token.parse_eq_ok_iff]
    exact and_congr_left fun _ => ⟨fun h => Value.toValue_injective h, fun h => h ▸ rfl⟩
  rw [← spelled]
  unfold idIssues
  cases Token.parse .absoluteId key.toValue <;> simp

section
variable [Visiting]

theorem passes_iff {e : Key × Value} {outcome : Outcome} :
    Passes e outcome ↔ ∃ (id : AbsoluteId) (shape : Shape), e.1 = .str id.text ∧ id.Accepted ∧
      ((∃ plain, e.2.HasPlain plain) ∧ shape.SpelledBy e.2) ∧
      outcome = ⟨e.1, some shape, []⟩ := by
  obtain ⟨key, node⟩ := e
  constructor
  · rintro ⟨h, hempty⟩
    obtain ⟨_, -, h⟩ := Traced.outcome_bind_eq_ok_iff.mp h
    obtain ⟨found, hf, h⟩ := Traced.outcome_bind_eq_ok_iff.mp h
    dsimp only at h
    split at h
    · rename_i hi
      obtain rfl := Traced.outcome_pure_eq_ok_iff.mp h
      obtain ⟨hid, ht⟩ := List.append_eq_nil_iff.mp (List.isEmpty_iff.mp hi)
      obtain ⟨id, rfl, ha⟩ := idIssues_eq_nil_iff.mp hid
      obtain ⟨shape, rfl⟩ := Shape.isSome_of_parse ⟨ht, hf⟩
      exact ⟨id, shape, rfl, ha, Shape.spelled_of_parse hf, rfl⟩
    · rename_i hi
      obtain ⟨_, -, h⟩ := Traced.outcome_bind_eq_ok_iff.mp h
      obtain rfl := Traced.outcome_pure_eq_ok_iff.mp h
      exact absurd (List.isEmpty_iff.mpr hempty) hi
  · rintro ⟨id, shape, rfl, ha, ⟨⟨plain, hp⟩, hs⟩, rfl⟩
    have hparse := Shape.parse_of_spelled hp hs (shapesPath ++ [.str (Key.str id.text).text])
    refine ⟨Traced.outcome_bind_eq_ok_iff.mpr ⟨(), rfl, Traced.outcome_bind_eq_ok_iff.mpr
      ⟨some shape, ?_, ?_⟩⟩, rfl⟩
    · rw [hparse]
      rfl
    · rw [hparse, idIssues_eq_nil_iff.mpr ⟨id, rfl, ha⟩]
      rfl

theorem not_rejected_of_passes {e : Key × Value} {outcome : Outcome} (h : Passes e outcome) :
    outcome.rejected = false := by
  rw [Outcome.rejected, h.2]
  rfl

theorem oneByOne_passes_iff {failFast : Bool} {entries : Entries Value} {outcomes : List Outcome} :
    ((oneByOne failFast entries).outcome = .ok outcomes ∧ ∀ o ∈ outcomes, o.issues = []) ↔
      List.Forall₂ Passes entries outcomes := by
  induction entries generalizing outcomes with
  | nil =>
    rw [oneByOne, Traced.outcome_pure_eq_ok_iff, List.forall₂_nil_left_iff]
    constructor
    · rintro ⟨rfl, -⟩
      rfl
    · rintro rfl
      exact ⟨rfl, by simp⟩
  | cons e rest ih =>
    obtain ⟨key, node⟩ := e
    rw [oneByOne, Traced.outcome_bind_eq_ok_iff]
    constructor
    · rintro ⟨⟨o, ho, h⟩, hempty⟩
      split at h
      · rename_i hr
        obtain rfl := Traced.outcome_pure_eq_ok_iff.mp h
        have hp : Passes (key, node) o := ⟨ho, hempty o (by simp)⟩
        simp [not_rejected_of_passes hp] at hr
      · obtain ⟨more, hm, h⟩ := Traced.outcome_bind_eq_ok_iff.mp h
        obtain rfl := Traced.outcome_pure_eq_ok_iff.mp h
        obtain ⟨hi, his⟩ := List.forall_mem_cons.mp hempty
        exact .cons ⟨ho, hi⟩ (ih.mp ⟨hm, his⟩)
    · rintro (_ | @⟨_, o, _, more, hp, hrest⟩)
      obtain ⟨hm, his⟩ := ih.mpr hrest
      refine ⟨⟨o, hp.1, ?_⟩, List.forall_mem_cons.mpr ⟨hp.2, his⟩⟩
      rw [not_rejected_of_passes hp, Bool.and_false, if_neg Bool.false_ne_true]
      exact Traced.outcome_bind_eq_ok_iff.mpr ⟨more, hm, rfl⟩

end

section
variable [Visiting] {failFast : Bool} {order : List Nat} {entries : Entries Value}
  {outcomes : List Outcome}

/-- The first run to come in that ends the work of all workers, by a rejection or by a fault. -/
def firstToHalt (failFast : Bool) (order : List Nat) (entries : Entries Value) :
    Option (Run Outcome) :=
  Workers.firstToHalt (fun outcome => failFast && outcome.rejected) order
    (entries.map fun e => single e.1 e.2)

theorem byWorkers_of_some {run : Run Outcome} (h : firstToHalt failFast order entries = some run) :
    (byWorkers failFast order entries).outcome = .ok outcomes ↔
      ∃ outcome, run.outcome = .ok outcome ∧ outcomes = [outcome] := by
  rw [byWorkers, Workers.share_of_halts h, Fault.map_eq_ok_iff]

theorem byWorkers_of_none (complete : order.Perm (List.range entries.length))
    (h : firstToHalt failFast order entries = none) :
    (byWorkers failFast order entries).outcome = .ok outcomes ↔
      List.Forall₂ (fun e outcome => (single e.1 e.2).outcome = .ok outcome) entries outcomes := by
  rw [byWorkers, Workers.share_of_not_halts (by simpa using complete) h,
    Traced.outcome_each_eq_ok_iff, List.forall₂_map_left_iff]
  rfl

theorem exists_of_firstToHalt {run : Run Outcome}
    (h : firstToHalt failFast order entries = some run) :
    Workers.halts (fun outcome => failFast && outcome.rejected) run = true ∧
      ∃ e ∈ entries, run = single e.1 e.2 := by
  refine ⟨List.find?_some h, ?_⟩
  obtain ⟨n, -, hn⟩ := List.mem_filterMap.mp (List.mem_of_find?_eq_some h)
  obtain ⟨e, he, rfl⟩ := List.mem_map.mp (List.mem_of_getElem? hn)
  exact ⟨e, he, rfl⟩

/-- The order in which workers come in is arbitrary. -/
theorem byWorkers_passes_iff (complete : order.Perm (List.range entries.length)) :
    ((byWorkers failFast order entries).outcome = .ok outcomes ∧
        ∀ o ∈ outcomes, o.issues = []) ↔ List.Forall₂ Passes entries outcomes := by
  cases hfirst : firstToHalt failFast order entries with
  | some run =>
    obtain ⟨halts, e, he, rfl⟩ := exists_of_firstToHalt hfirst
    rw [byWorkers_of_some hfirst]
    constructor
    · rintro ⟨⟨o, ho, rfl⟩, hempty⟩
      simp [Workers.halts, ho, Outcome.rejected, hempty o (by simp)] at halts
    · intro h
      obtain ⟨o, -, hp⟩ := h.exists_of_mem_left he
      simp [Workers.halts, hp.1, not_rejected_of_passes hp] at halts
  | none =>
    rw [byWorkers_of_none complete hfirst]
    constructor
    · rintro ⟨h, hempty⟩
      exact h.imp_of_mem fun e _ o ho hrun => ⟨hrun, hempty o ho⟩
    · intro h
      refine ⟨h.imp fun e o hp => hp.1, fun o ho => ?_⟩
      obtain ⟨e, -, hp⟩ := h.exists_of_mem_right ho
      exact hp.2

end

theorem shapes_pass_iff [Visiting] {settings : Settings} {arrival : Schedule}
    {entries : Entries Value} {outcomes : List Outcome} :
    ((shapes settings arrival entries).outcome = .ok outcomes ∧ ∀ o ∈ outcomes, o.issues = []) ↔
      List.Forall₂ Passes entries outcomes := by
  have logged : (shapes settings arrival entries).outcome = .ok outcomes ↔
      (if settings.maxWorkers > 1 && entries.length > 1 then
        byWorkers settings.failFast (arrival.order entries.length) entries
      else oneByOne settings.failFast entries).outcome = .ok outcomes := by
    rw [shapes, Traced.outcome_bind_eq_ok_iff]
    exact ⟨fun ⟨_, _, h⟩ => h, fun h => ⟨(), rfl, h⟩⟩
  rw [logged]
  split
  · exact byWorkers_passes_iff (arrival.complete _)
  · exact oneByOne_passes_iff

end ServiceModel.Validation
