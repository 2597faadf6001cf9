import Mathlib.Data.List.Forall2

/-!
# Lists that correspond item by item

Passing from one side of a correspondence to the other.
-/
namespace List.Forall₂
variable {α β γ : Type} {R : α → β → Prop} {S : β → γ → Prop} {xs : List α} {ys : List β}

theorem exists_of_mem_left (h : Forall₂ R xs ys) {x : α} (hx : x ∈ xs) : ∃ y ∈ ys, R x y := by
  induction h with
  | nil => cases hx
  | @cons a b _ _ hab _ ih =>
    rcases mem_cons.mp hx with rfl | hx
    · exact ⟨b, mem_cons_self, hab⟩
    · obtain ⟨y, hy, hR⟩ := ih hx
      exact ⟨y, mem_cons_of_mem _ hy, hR⟩

theorem exists_of_mem_right (h : Forall₂ R xs ys) {y : β} (hy : y ∈ ys) : ∃ x ∈ xs, R x y :=
  h.flip.exists_of_mem_left hy

theorem imp_of_mem (h : Forall₂ R xs ys) {T : α → β → Prop}
    (hT : ∀ x ∈ xs, ∀ y ∈ ys, R x y → T x y) : Forall₂ T xs ys := by
  induction h with
  | nil => exact .nil
  | cons hab _ ih =>
    exact .cons (hT _ mem_cons_self _ mem_cons_self hab)
      (ih fun x hx y hy => hT x (mem_cons_of_mem _ hx) y (mem_cons_of_mem _ hy))

theorem iff_of_mem {T : α → β → Prop} (h : ∀ x ∈ xs, ∀ y ∈ ys, R x y ↔ T x y) :
    Forall₂ R xs ys ↔ Forall₂ T xs ys :=
  ⟨fun hR => hR.imp_of_mem fun x hx y hy => (h x hx y hy).mp,
    fun hT => hT.imp_of_mem fun x hx y hy => (h x hx y hy).mpr⟩

theorem comp {zs : List γ} (h : Forall₂ R xs ys) (h' : Forall₂ S ys zs) :
    Forall₂ (fun x z => ∃ y, R x y ∧ S y z) xs zs := by
  induction h generalizing zs with
  | nil =>
    cases h'
    exact .nil
  | cons hab _ ih =>
    cases h' with
    | cons hbc hr => exact .cons ⟨_, hab, hbc⟩ (ih hr)

theorem eq_nil_iff (h : Forall₂ R xs ys) : xs = [] ↔ ys = [] := by
  cases h <;> simp

/-- Two counterparts of one list correspond to each other. -/
theorem across {zs : List γ} {S : α → γ → Prop} {T : β → γ → Prop} (h : Forall₂ R xs ys)
    (h' : Forall₂ S xs zs) (hT : ∀ x ∈ xs, ∀ y z, R x y → S x z → T y z) : Forall₂ T ys zs := by
  have mem := h.imp_of_mem (T := fun x y => R x y ∧ x ∈ xs) fun x hx _ _ hR => ⟨hR, hx⟩
  refine (mem.flip.comp h').imp ?_
  rintro y z ⟨x, ⟨hR, hx⟩, hS⟩
  exact hT x hx y z hR hS

theorem exists_iff {xs : List α} : (∃ ys, Forall₂ R xs ys) ↔ ∀ x ∈ xs, ∃ y, R x y := by
  constructor
  · rintro ⟨ys, h⟩ x hx
    obtain ⟨y, -, hR⟩ := h.exists_of_mem_left hx
    exact ⟨y, hR⟩
  · intro h
    induction xs with
    | nil => exact ⟨[], .nil⟩
    | cons x rest ih =>
      obtain ⟨y, hy⟩ := h x mem_cons_self
      obtain ⟨ys, hys⟩ := ih fun x hx => h x (mem_cons_of_mem _ hx)
      exact ⟨y :: ys, .cons hy hys⟩

theorem of_forall_exists {xs : List α} (h : ∀ x ∈ xs, ∃ y, R x y) : ∃ ys, Forall₂ R xs ys :=
  exists_iff.mpr h

/-- A correspondence in which everything on the right is an image. -/
theorem image_iff {δ : Type} {g : β → δ} {os : List δ} :
    Forall₂ (fun x o => ∃ y, o = g y ∧ R x y) xs os ↔ ∃ ys, os = ys.map g ∧ Forall₂ R xs ys := by
  constructor
  · intro h
    induction h with
    | nil => exact ⟨[], rfl, .nil⟩
    | cons hxo _ ih =>
      obtain ⟨y, rfl, hR⟩ := hxo
      obtain ⟨ys, rfl, hys⟩ := ih
      exact ⟨y :: ys, rfl, .cons hR hys⟩
  · rintro ⟨ys, rfl, h⟩
    rw [forall₂_map_right_iff]
    exact h.imp fun _ y hR => ⟨y, rfl, hR⟩

/-- Two tests, one on each counterpart, that together are exact item by item. -/
theorem and_iff {δ : Type} {os : List δ} {C : β → Prop} {Y T : α → δ → Prop}
    (h : Forall₂ R xs ys) (exact : ∀ x ∈ xs, ∀ y o, R x y → (C y ∧ Y x o ↔ T x o)) :
    (∀ y ∈ ys, C y) ∧ Forall₂ Y xs os ↔ Forall₂ T xs os := by
  induction h generalizing os with
  | nil => simp
  | @cons x y rest more hxy _ ih =>
    cases os with
    | nil => simp
    | cons o others =>
      have rest_iff := @ih others fun x hx => exact x (mem_cons_of_mem _ hx)
      rw [forall_mem_cons, forall₂_cons, forall₂_cons, ← exact x mem_cons_self y o hxy, ← rest_iff]
      tauto

theorem exists_append {xs' : List α} {zs : List β} (h : Forall₂ R (xs ++ xs') zs) :
    ∃ ys ys', zs = ys ++ ys' ∧ Forall₂ R xs ys ∧ Forall₂ R xs' ys' := by
  induction xs generalizing zs with
  | nil => exact ⟨[], zs, rfl, .nil, h⟩
  | cons x rest ih =>
    cases h with
    | @cons _ y _ more hxy hrest =>
      obtain ⟨ys, ys', rfl, hys, hys'⟩ := ih hrest
      exact ⟨y :: ys, ys', rfl, .cons hxy hys, hys'⟩

theorem flatMap_eq {γ : Type} {f : α → List γ} {g : β → List γ} (h : Forall₂ R xs ys)
    (same : ∀ x y, R x y → f x = g y) : xs.flatMap f = ys.flatMap g := by
  induction h with
  | nil => rfl
  | cons hxy _ ih => rw [flatMap_cons, flatMap_cons, same _ _ hxy, ih]

theorem map_eq {γ : Type} {f : α → γ} {g : β → γ} (h : Forall₂ R xs ys)
    (same : ∀ x y, R x y → f x = g y) : xs.map f = ys.map g := by
  rw [← forall₂_eq_eq_eq, forall₂_map_left_iff, forall₂_map_right_iff]
  exact h.imp same

/-- Tests that agree on counterparts hold equally often. -/
theorem countP_eq (h : Forall₂ R xs ys) {p : α → Bool} {q : β → Bool}
    (agree : ∀ x y, R x y → p x = q y) : xs.countP p = ys.countP q := by
  induction h with
  | nil => rfl
  | cons hxy _ ih => rw [countP_cons, countP_cons, agree _ _ hxy, ih]

theorem eq_map {f : β → α} (h : Forall₂ (fun x y => x = f y) xs ys) : xs = ys.map f := by
  rw [← forall₂_eq_eq_eq, forall₂_map_right_iff]
  exact h

theorem zipIdx (h : Forall₂ R xs ys) (n : Nat) :
    Forall₂ (fun x y => R x.1 y.1 ∧ x.2 = y.2) (xs.zipIdx n) (ys.zipIdx n) := by
  induction h generalizing n with
  | nil => exact .nil
  | cons hxy _ ih =>
    rw [zipIdx_cons, zipIdx_cons]
    exact .cons ⟨hxy, rfl⟩ (ih (n + 1))

theorem getElem? (h : Forall₂ R xs ys) (n : Nat) : Option.Rel R xs[n]? ys[n]? := by
  induction h generalizing n with
  | nil => exact .none
  | cons hab _ ih =>
    cases n with
    | zero => exact .some hab
    | succ n => simpa using ih n

/-- The items at given positions correspond. -/
theorem filterMap_getElem? (h : Forall₂ R xs ys) (positions : List Nat) :
    Forall₂ R (positions.filterMap fun n => xs[n]?) (positions.filterMap fun n => ys[n]?) := by
  induction positions with
  | nil => exact .nil
  | cons n rest ih =>
    have hn := h.getElem? n
    rw [filterMap_cons, filterMap_cons]
    cases hx : xs[n]? <;> cases hy : ys[n]? <;> rw [hx, hy] at hn <;> cases hn
    · exact ih
    · rename_i hR
      exact .cons hR ih

/-- Tests that agree on counterparts find counterparts. -/
theorem find? (h : Forall₂ R xs ys) {p : α → Bool} {q : β → Bool}
    (agree : ∀ x y, R x y → p x = q y) : Option.Rel R (xs.find? p) (ys.find? q) := by
  induction h with
  | nil => exact .none
  | @cons x y _ _ hab _ ih =>
    rw [find?_cons, find?_cons, agree x y hab]
    cases q y with
    | true => exact .some hab
    | false => exact ih

end List.Forall₂

theorem Option.Rel.of_eq {α : Type} {R : α → α → Prop} (hR : ∀ x, R x x) {a b : Option α}
    (h : a = b) : Option.Rel R a b := by
  subst h
  cases a <;> simp [hR]
