import ServiceModel.Document.Workers
import ServiceModel.Proofs.Correspondence
import ServiceModel.Proofs.Runs

/-!
# Merging restores the order of the tasks

Each result is kept under the position of its task, so the order in which results come in is
forgotten when they are merged. What workers share amounts to this: the first run to come in that
stops the work has the only result, and if none stops it the results are those of all runs, in the
order of the runs.
-/
namespace ServiceModel.Workers
variable {τ α β : Type}

theorem numbered_cons_of_some {position : Nat} {items : List β} {item : β}
    (h : items[position]? = some item) (rest : List Nat) :
    numbered (position :: rest) items = (position, item) :: numbered rest items := by
  simp [numbered, h]

theorem map_fst_numbered {positions : List Nat} {items : List β}
    (h : ∀ n ∈ positions, n < items.length) : (numbered positions items).map (·.1) = positions := by
  induction positions with
  | nil => rfl
  | cons n rest ih =>
    obtain ⟨hn, hrest⟩ := List.forall_mem_cons.mp h
    rw [numbered_cons_of_some (List.getElem?_eq_getElem hn), List.map_cons, ih hrest]

theorem map_snd_numbered (positions : List Nat) (items : List β) :
    (numbered positions items).map (·.2) = positions.filterMap fun n => items[n]? := by
  simp [numbered, List.map_filterMap, Option.map_map, Function.comp_def]

theorem lookup_numbered (positions : List Nat) (items : List β) (n : Nat) :
    (numbered positions items).lookup n = if n ∈ positions then items[n]? else none := by
  induction positions with
  | nil => rfl
  | cons position rest ih =>
    cases hp : items[position]? with
    | none =>
      have skipped : numbered (position :: rest) items = numbered rest items := by
        simp [numbered, hp]
      rw [skipped, ih]
      by_cases hn : n = position
      · simp [hn, hp]
      · simp [hn]
    | some item =>
      rw [numbered_cons_of_some hp, List.lookup_cons, ih]
      by_cases hn : n = position
      · simp [hn, hp]
      · have other : (n == position) = false := beq_eq_false_iff_ne.mpr hn
        simp [hn, other]

theorem filterMap_getElem?_range (items : List β) :
    ((List.range items.length).filterMap fun n => items[n]?) = items := by
  induction items with
  | nil => rfl
  | cons item rest ih =>
    simp only [List.length_cons, List.range_succ_eq_map, List.filterMap_cons, List.filterMap_map]
    simpa [Function.comp_def] using ih

theorem mergeSort_of_perm_range {positions : List Nat} {n : Nat}
    (h : positions.Perm (List.range n)) : positions.mergeSort = List.range n := by
  have sorted : positions.mergeSort.Pairwise fun a b => decide (a ≤ b) = true :=
    List.pairwise_mergeSort (fun a b c => by simpa using Nat.le_trans)
      (fun a b => by simpa using Nat.le_total a b) positions
  apply @List.Perm.eq_of_pairwise _ fun a b : Nat => a ≤ b
  · intro a b _ _ hab hba
    exact Nat.le_antisymm hab hba
  · exact sorted.imp fun h => by simpa using h
  · exact List.pairwise_le_range
  · exact (List.mergeSort_perm _ _).trans h

/-- In whatever order the results of all tasks come in, merging restores the order of the tasks. -/
theorem merged_numbered {order : List Nat} {items : List β}
    (h : order.Perm (List.range items.length)) : merged (numbered order items) = items := by
  have small : ∀ n ∈ order, n < items.length := fun n hn => List.mem_range.mp (h.subset hn)
  have found : ∀ n ∈ List.range items.length, (numbered order items).lookup n = items[n]? := by
    intro n hn
    rw [lookup_numbered, if_pos (h.mem_iff.mpr hn)]
  rw [merged, map_fst_numbered small, mergeSort_of_perm_range h, List.filterMap_congr found,
    filterMap_getElem?_range]

/-- Whether a run ends the work of all: by its result or by a fault. -/
def halts (stops : α → Bool) (run : Traced τ α) : Bool :=
  match run.outcome with
  | .ok result => stops result
  | .error _ => true

/-- The first run to come in that ends the work of all. -/
def firstToHalt (stops : α → Bool) (order : List Nat) (runs : List (Traced τ α)) :
    Option (Traced τ α) :=
  (order.filterMap fun n => runs[n]?).find? (halts stops)

theorem halts_eq_false_iff {stops : α → Bool} {run : Traced τ α} :
    halts stops run = false ↔ ∃ result, run.outcome = .ok result ∧ stops result = false := by
  unfold halts
  cases run.outcome <;> simp

theorem forall₂_numbered {γ : Type} {R : β → γ → Prop} {items : List β} {others : List γ}
    (h : List.Forall₂ R items others) (positions : List Nat) :
    List.Forall₂ (fun e r => e.1 = r.1 ∧ R e.2 r.2) (numbered positions items)
      (numbered positions others) := by
  apply List.rel_filterMap (R := Eq)
  · rintro n _ rfl
    have at_n := h.getElem? n
    dsimp only
    generalize items[n]? = x at at_n ⊢
    generalize others[n]? = y at at_n ⊢
    cases at_n with
    | none => exact .none
    | some hR => exact .some ⟨rfl, hR⟩
  · exact List.forall₂_eq_eq_eq ▸ rfl

theorem takeIn_of_halts {stops : α → Bool} {results : List (Nat × α)}
    {runs : List (Nat × Traced τ α)} {run : Traced τ α}
    (h : (runs.map (·.2)).find? (halts stops) = some run) :
    (takeIn stops results runs).outcome = ([·]) <$> run.outcome := by
  induction runs generalizing results with
  | nil => simp at h
  | cons e rest ih =>
    rw [List.map_cons, List.find?_cons] at h
    cases hhalts : halts stops e.2 with
    | true =>
      obtain rfl : e.2 = run := by simpa [hhalts] using h
      cases hrun : e.2.outcome with
      | error fault =>
        rw [takeIn, Traced.bind_of_error hrun]
        rfl
      | ok result =>
        have hs : stops result = true := by simpa [halts, hrun] using hhalts
        rw [takeIn, Traced.bind_of_ok hrun, if_pos hs]
        rfl
    | false =>
      obtain ⟨result, hrun, hs⟩ := halts_eq_false_iff.mp hhalts
      rw [takeIn, Traced.bind_of_ok hrun, if_neg (by simp [hs])]
      exact ih (by simpa [hhalts] using h)

theorem takeIn_of_results {stops : α → Bool} {results more : List (Nat × α)}
    {runs : List (Nat × Traced τ α)}
    (h : List.Forall₂ (fun e r => e.1 = r.1 ∧ e.2.outcome = .ok r.2 ∧ stops r.2 = false)
      runs more) :
    (takeIn stops results runs).outcome = .ok (merged (results ++ more)) := by
  induction h generalizing results with
  | nil => rw [takeIn, List.append_nil, Traced.outcome_pure_eq_ok_iff]
  | @cons e r rest others he _ ih =>
    obtain ⟨hposition, hrun, hs⟩ := he
    rw [takeIn, Traced.bind_of_ok hrun, if_neg (by simp [hs]), hposition]
    simpa using @ih (results ++ [r])

theorem share_of_halts {stops : α → Bool} {order : List Nat} {runs : List (Traced τ α)}
    {run : Traced τ α} (h : firstToHalt stops order runs = some run) :
    (share stops order runs).outcome = ([·]) <$> run.outcome := by
  rw [firstToHalt, ← map_snd_numbered] at h
  exact takeIn_of_halts h

/-- If no run stops the work, the order in which the workers complete makes no difference. -/
theorem share_of_not_halts {stops : α → Bool} {order : List Nat} {runs : List (Traced τ α)}
    (complete : order.Perm (List.range runs.length))
    (h : firstToHalt stops order runs = none) :
    (share stops order runs).outcome = (Traced.each id runs).outcome := by
  have each : ∀ run ∈ runs, ∃ result, run.outcome = .ok result ∧ stops result = false := by
    intro run hrun
    have came : run ∈ order.filterMap fun n => runs[n]? := by
      rw [(complete.filterMap _).mem_iff, filterMap_getElem?_range]
      exact hrun
    exact halts_eq_false_iff.mp (by simpa using List.find?_eq_none.mp h run came)
  obtain ⟨items, hitems⟩ := List.Forall₂.of_forall_exists each
  rw [share, takeIn_of_results (forall₂_numbered hitems order), List.nil_append,
    merged_numbered (hitems.length_eq ▸ complete), eq_comm, Traced.outcome_each_eq_ok_iff]
  exact hitems.imp fun run result hrun => hrun.1

end ServiceModel.Workers
