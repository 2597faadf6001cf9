import ServiceModel.Issue.Order
import Mathlib.Data.List.Basic

/-!
# Sorting by nodes

Sorting keeps items of one node together and in order. So items that become several ones of the same
node may do so before they are sorted or after, items may be left out before or after, and what is
said of the root comes first, as it was.
-/
namespace ServiceModel.Path
variable {α β : Type} {node : α → Path} {below : β → Path}

theorem le_refl (p : Path) : le p p = true := (le_total p p).elim id id

theorem place_of_forall_le {a : α} {items : List α}
    (h : ∀ b ∈ items, le (node a) (node b) = true) : place node a items = a :: items := by
  cases items with
  | nil => rfl
  | cons b rest => exact if_pos (h b List.mem_cons_self)

theorem place_append_of_not_le {a : α} {before : List α}
    (h : ∀ b ∈ before, le (node a) (node b) = false) (after : List α) :
    place node a (before ++ after) = before ++ place node a after := by
  induction before with
  | nil => rfl
  | cons b rest ih =>
    obtain ⟨hb, hrest⟩ := List.forall_mem_cons.mp h
    rw [List.cons_append, place, if_neg (by simp [hb]), ih hrest, List.cons_append]

theorem exists_split (p : Path) {items : List α}
    (h : items.Pairwise fun a b => le (node a) (node b) = true) :
    ∃ before after, items = before ++ after ∧ (∀ b ∈ before, le p (node b) = false) ∧
      ∀ b ∈ after, le p (node b) = true := by
  induction items with
  | nil => exact ⟨[], [], rfl, by simp, by simp⟩
  | cons b rest ih =>
    obtain ⟨hb, hrest⟩ := List.pairwise_cons.mp h
    cases hp : le p (node b) with
    | true =>
      exact ⟨[], b :: rest, rfl, by simp,
        List.forall_mem_cons.mpr ⟨hp, fun c hc => le_trans hp (hb c hc)⟩⟩
    | false =>
      obtain ⟨before, after, rfl, hbefore, hafter⟩ := ih hrest
      exact ⟨b :: before, after, rfl, List.forall_mem_cons.mpr ⟨hp, hbefore⟩, hafter⟩

/-- Items of one node are placed together, in their order. -/
theorem foldr_place {p : Path} {block before after : List α} (hp : ∀ a ∈ block, node a = p)
    (hbefore : ∀ b ∈ before, le p (node b) = false) (hafter : ∀ b ∈ after, le p (node b) = true) :
    block.foldr (place node) (before ++ after) = before ++ (block ++ after) := by
  induction block with
  | nil => rfl
  | cons a rest ih =>
    obtain ⟨rfl, hrest⟩ := List.forall_mem_cons.mp hp
    rw [List.foldr_cons, ih hrest, place_append_of_not_le hbefore, place_of_forall_le,
      List.cons_append]
    exact List.forall_mem_append.mpr ⟨fun b hb => hrest b hb ▸ le_refl _, hafter⟩

theorem sortBy_append (items others : List α) :
    sortBy node (items ++ others) = items.foldr (place node) (sortBy node others) := by
  induction items with
  | nil => rfl
  | cons a rest ih => rw [List.cons_append, sortBy, ih, List.foldr_cons]

/-- Items may become several ones of the same node before they are sorted or after. -/
theorem flatMap_sortBy {f : α → List β} (same : ∀ a, ∀ b ∈ f a, below b = node a)
    (items : List α) : (sortBy node items).flatMap f = sortBy below (items.flatMap f) := by
  induction items with
  | nil => rfl
  | cons a rest ih =>
    obtain ⟨before, after, hsorted, hbefore, hafter⟩ :=
      exists_split (node a) (sortBy_pairwise node rest)
    have placed : place node a (before ++ after) = before ++ ([a] ++ after) :=
      @foldr_place _ _ _ [a] _ _ (fun _ h => congrArg node (List.mem_singleton.mp h)) hbefore hafter
    rw [sortBy, List.flatMap_cons, sortBy_append, ← ih, hsorted, placed, List.flatMap_append,
      List.flatMap_append, List.flatMap_append, foldr_place (same a)]
    · simp
    · intro c hc
      obtain ⟨b, hb, hc⟩ := List.mem_flatMap.mp hc
      rw [same b c hc, hbefore b hb]
    · intro c hc
      obtain ⟨b, hb, hc⟩ := List.mem_flatMap.mp hc
      rw [same b c hc, hafter b hb]

/-- What is said of the root comes first. -/
theorem sortBy_append_roots {items roots : List α} (h : ∀ a ∈ items, node a ≠ [])
    (hr : ∀ a ∈ roots, node a = []) :
    sortBy node (items ++ roots) = roots ++ sortBy node items := by
  have sorted : sortBy node roots = roots := by
    have placed : roots.foldr (place node) [] = roots ++ [] :=
      @foldr_place _ _ _ _ [] [] hr (by simp) (by simp)
    have all : sortBy node (roots ++ []) = roots.foldr (place node) (sortBy node []) :=
      sortBy_append roots []
    rw [List.append_nil] at all
    rw [all]
    exact placed.trans (List.append_nil roots)
  induction items with
  | nil => simpa [sortBy] using sorted
  | cons a rest ih =>
    obtain ⟨ha, hrest⟩ := List.forall_mem_cons.mp h
    rw [List.cons_append, sortBy, ih hrest, place_append_of_not_le, sortBy]
    intro b hb
    rw [hr b hb, le]
    cases hn : node a with
    | nil => exact absurd hn ha
    | cons token rest => rfl

theorem filter_sortBy (keep : α → Bool) (items : List α) :
    (sortBy node items).filter keep = sortBy node (items.filter keep) := by
  have kept (l : List α) : l.filter keep = l.flatMap fun a => if keep a then [a] else [] := by
    induction l with
    | nil => rfl
    | cons a rest ih =>
      rw [List.filter_cons, List.flatMap_cons, ih]
      cases keep a <;> rfl
  rw [kept, kept, flatMap_sortBy]
  intro a b hb
  split at hb
  · rw [List.mem_singleton.mp hb]
  · cases hb

theorem sortBy_eq_nil_iff {items : List α} : sortBy node items = [] ↔ items = [] :=
  ⟨fun h => by simpa [h] using (sortBy_perm node items).symm, fun h => by simp [h, sortBy]⟩

end ServiceModel.Path
