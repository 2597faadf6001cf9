import ServiceModel.Proofs.Rearrangement
import ServiceModel.Proofs.Value.Fixed
import ServiceModel.Value.Equality

/-!
# Trees with their entries in another order

A tree is reordered by putting the entries of any of its mappings into another order; the items of
sequences keep theirs. In a tree without pair lists this is all that a reader by name cannot see.
The plain forms of the two trees are reordered in the same way, and so are the fixed forms of these.
-/
namespace ServiceModel

/-- Two entries under one key, with values that are related. -/
inductive Entries.Under {α β : Type} (R : α → β → Prop) : Key × α → Key × β → Prop
  | intro (key : Key) {v : α} {w : β} (h : R v w) : Under R (key, v) (key, w)

theorem Entries.under_iff {α β : Type} {R : α → β → Prop} {e : Key × α} {f : Key × β} :
    Under R e f ↔ e.1 = f.1 ∧ R e.2 f.2 := by
  constructor
  · rintro ⟨key, h⟩
    exact ⟨rfl, h⟩
  · obtain ⟨key, v⟩ := e
    rintro ⟨rfl, h⟩
    exact .intro _ h

namespace Value

/-- The second tree is the first with the entries of its mappings in any order, at any depth. -/
inductive Reordered : Value → Value → Prop
  | scalar (s : Scalar) : Reordered (.scalar s) (.scalar s)
  | list {xs ys : List Value} (h : List.Forall₂ Reordered xs ys) : Reordered (.list xs) (.list ys)
  | tuple {xs ys : List Value} (h : List.Forall₂ Reordered xs ys) :
    Reordered (.tuple xs) (.tuple ys)
  | map {es fs gs : Entries Value} (h : List.Forall₂ (Entries.Under Reordered) es fs)
    (hp : fs.Perm gs) : Reordered (.map es) (.map gs)
  | frozen {es fs gs : Entries Value} (h : List.Forall₂ (Entries.Under Reordered) es fs)
    (hp : fs.Perm gs) : Reordered (.frozen es) (.frozen gs)
  | pairs {xs ys : List Value} (h : List.Forall₂ Reordered xs ys) :
    Reordered (.pairs xs) (.pairs ys)

section
variable {xs : List Value} {es : Entries Value} {w : Value}

theorem exists_under_iff {gs : Entries Value} :
    (∃ fs, List.Forall₂ (Entries.Under Reordered) es fs ∧ fs.Perm gs) ↔
      Entries.Rearranged Reordered es gs := by
  have same : Entries.Under Reordered = fun e f : Key × Value => e.1 = f.1 ∧ Reordered e.2 f.2 :=
    funext fun e => funext fun f => propext Entries.under_iff
  rw [same]
  rfl

theorem reordered_list_iff :
    Reordered (.list xs) w ↔ ∃ ys, w = .list ys ∧ List.Forall₂ Reordered xs ys := by
  constructor
  · rintro (_ | h)
    exact ⟨_, rfl, h⟩
  · rintro ⟨ys, rfl, h⟩
    exact .list h

theorem reordered_tuple_iff :
    Reordered (.tuple xs) w ↔ ∃ ys, w = .tuple ys ∧ List.Forall₂ Reordered xs ys := by
  constructor
  · rintro (_ | _ | h)
    exact ⟨_, rfl, h⟩
  · rintro ⟨ys, rfl, h⟩
    exact .tuple h

theorem reordered_map_iff :
    Reordered (.map es) w ↔ ∃ fs, w = .map fs ∧ Entries.Rearranged Reordered es fs := by
  constructor
  · rintro (_ | _ | _ | ⟨h, hp⟩)
    exact ⟨_, rfl, exists_under_iff.mp ⟨_, h, hp⟩⟩
  · rintro ⟨gs, rfl, h⟩
    obtain ⟨fs, hu, hp⟩ := exists_under_iff.mpr h
    exact .map hu hp

theorem reordered_frozen_iff :
    Reordered (.frozen es) w ↔ ∃ fs, w = .frozen fs ∧ Entries.Rearranged Reordered es fs := by
  constructor
  · rintro (_ | _ | _ | _ | ⟨h, hp⟩)
    exact ⟨_, rfl, exists_under_iff.mp ⟨_, h, hp⟩⟩
  · rintro ⟨gs, rfl, h⟩
    obtain ⟨fs, hu, hp⟩ := exists_under_iff.mpr h
    exact .frozen hu hp

end

/-- A function that does not look inside sequences and mappings does not see the order. -/
theorem Reordered.congr {α : Type} {f : Value → α} {v w : Value} (h : v.Reordered w)
    (sequence : ∀ xs ys, f (.list xs) = f (.list ys) ∧ f (.tuple xs) = f (.tuple ys))
    (mapping : ∀ es fs, f (.map es) = f (.map fs) ∧ f (.frozen es) = f (.frozen fs))
    (pairs : ∀ xs ys, f (.pairs xs) = f (.pairs ys)) : f v = f w := by
  cases h with
  | scalar s => rfl
  | list _ => exact (sequence _ _).1
  | tuple _ => exact (sequence _ _).2
  | map _ _ => exact (mapping _ _).1
  | frozen _ _ => exact (mapping _ _).2
  | pairs _ => exact pairs _ _

theorem Reordered.str?_eq {v w : Value} (h : v.Reordered w) : v.str? = w.str? :=
  h.congr (fun _ _ => ⟨rfl, rfl⟩) (fun _ _ => ⟨rfl, rfl⟩) fun _ _ => rfl

theorem Reordered.hasEntries_eq {v w : Value} (h : v.Reordered w) : v.hasEntries = w.hasEntries :=
  h.congr (fun _ _ => ⟨rfl, rfl⟩) (fun _ _ => ⟨rfl, rfl⟩) fun _ _ => rfl

/-! Trees in which no key is repeated, so that they hold no pair list. -/

structure Single (value : Value) : Prop where
  pairFree : value.isPairFree = true
  wellFormed : value.isWellFormed = true

section
variable {xs : List Value} {es : Entries Value} {w : Value}

theorem single_list_iff : Single (.list xs) ↔ ∀ x ∈ xs, x.Single := by
  constructor
  · intro h x hx
    exact ⟨((everyNode_list_iff xs).mp h.pairFree).2 x hx,
      ((everyNode_list_iff xs).mp h.wellFormed).2 x hx⟩
  · intro h
    exact ⟨(everyNode_list_iff xs).mpr ⟨rfl, fun x hx => (h x hx).pairFree⟩,
      (everyNode_list_iff xs).mpr ⟨rfl, fun x hx => (h x hx).wellFormed⟩⟩

theorem single_tuple_iff : Single (.tuple xs) ↔ ∀ x ∈ xs, x.Single := by
  constructor
  · intro h x hx
    exact ⟨((everyNode_tuple_iff xs).mp h.pairFree).2 x hx,
      ((everyNode_tuple_iff xs).mp h.wellFormed).2 x hx⟩
  · intro h
    exact ⟨(everyNode_tuple_iff xs).mpr ⟨rfl, fun x hx => (h x hx).pairFree⟩,
      (everyNode_tuple_iff xs).mpr ⟨rfl, fun x hx => (h x hx).wellFormed⟩⟩

theorem single_map_iff : Single (.map es) ↔
    Entries.distinct (es.map (·.1)) = true ∧ ∀ e ∈ es, e.2.Single := by
  constructor
  · intro h
    obtain ⟨hd, hw⟩ := (everyNode_map_iff es).mp h.wellFormed
    exact ⟨hd, fun e he => ⟨((everyNode_map_iff es).mp h.pairFree).2 e he, hw e he⟩⟩
  · rintro ⟨hd, h⟩
    exact ⟨(everyNode_map_iff es).mpr ⟨rfl, fun e he => (h e he).pairFree⟩,
      (everyNode_map_iff es).mpr ⟨hd, fun e he => (h e he).wellFormed⟩⟩

theorem single_frozen_iff : Single (.frozen es) ↔
    Entries.distinct (es.map (·.1)) = true ∧ ∀ e ∈ es, e.2.Single := by
  constructor
  · intro h
    obtain ⟨hd, hw⟩ := (everyNode_frozen_iff es).mp h.wellFormed
    exact ⟨hd, fun e he => ⟨((everyNode_frozen_iff es).mp h.pairFree).2 e he, hw e he⟩⟩
  · rintro ⟨hd, h⟩
    exact ⟨(everyNode_frozen_iff es).mpr ⟨rfl, fun e he => (h e he).pairFree⟩,
      (everyNode_frozen_iff es).mpr ⟨hd, fun e he => (h e he).wellFormed⟩⟩

/-- No key is repeated in the first tree, and the second is the first reordered. -/
structure Shuffled (v w : Value) : Prop where
  single : v.Single
  reordered : v.Reordered w

theorem shuffled_scalar (s : Scalar) : Shuffled (.scalar s) (.scalar s) :=
  ⟨⟨rfl, rfl⟩, .scalar s⟩

theorem forall₂_shuffled_iff {ys : List Value} : List.Forall₂ Shuffled xs ys ↔
    (∀ x ∈ xs, x.Single) ∧ List.Forall₂ Reordered xs ys := by
  rw [← List.forall₂_and_left]
  exact ⟨fun h => h.imp fun _ _ h => ⟨h.single, h.reordered⟩,
    fun h => h.imp fun _ _ h => ⟨h.1, h.2⟩⟩

theorem rearranged_shuffled_iff {fs : Entries Value} : Entries.Rearranged Shuffled es fs ↔
    (∀ e ∈ es, e.2.Single) ∧ Entries.Rearranged Reordered es fs := by
  constructor
  · intro h
    refine ⟨fun e he => ?_, h.imp fun _ _ h => ⟨h.1, h.2.reordered⟩⟩
    obtain ⟨gs, hg, -⟩ := h
    obtain ⟨_, -, -, hs⟩ := hg.exists_of_mem_left he
    exact hs.single
  · rintro ⟨hs, h⟩
    exact h.imp_of_mem fun e he _ _ h => ⟨h.1, hs e he, h.2⟩

theorem shuffled_list_iff :
    Shuffled (.list xs) w ↔ ∃ ys, w = .list ys ∧ List.Forall₂ Shuffled xs ys := by
  simp only [forall₂_shuffled_iff, ← single_list_iff]
  constructor
  · rintro ⟨hs, hr⟩
    obtain ⟨ys, rfl, h⟩ := reordered_list_iff.mp hr
    exact ⟨ys, rfl, hs, h⟩
  · rintro ⟨ys, rfl, hs, h⟩
    exact ⟨hs, .list h⟩

theorem shuffled_tuple_iff :
    Shuffled (.tuple xs) w ↔ ∃ ys, w = .tuple ys ∧ List.Forall₂ Shuffled xs ys := by
  simp only [forall₂_shuffled_iff, ← single_tuple_iff]
  constructor
  · rintro ⟨hs, hr⟩
    obtain ⟨ys, rfl, h⟩ := reordered_tuple_iff.mp hr
    exact ⟨ys, rfl, hs, h⟩
  · rintro ⟨ys, rfl, hs, h⟩
    exact ⟨hs, .tuple h⟩

theorem shuffled_map_iff : Shuffled (.map es) w ↔ ∃ fs, w = .map fs ∧
    Entries.distinct (es.map (·.1)) = true ∧ Entries.Rearranged Shuffled es fs := by
  simp only [rearranged_shuffled_iff, ← and_assoc, ← single_map_iff]
  constructor
  · rintro ⟨hs, hr⟩
    obtain ⟨fs, rfl, h⟩ := reordered_map_iff.mp hr
    exact ⟨fs, ⟨rfl, hs⟩, h⟩
  · rintro ⟨fs, ⟨rfl, hs⟩, h⟩
    exact ⟨hs, reordered_map_iff.mpr ⟨fs, rfl, h⟩⟩

theorem shuffled_frozen_iff : Shuffled (.frozen es) w ↔ ∃ fs, w = .frozen fs ∧
    Entries.distinct (es.map (·.1)) = true ∧ Entries.Rearranged Shuffled es fs := by
  simp only [rearranged_shuffled_iff, ← and_assoc, ← single_frozen_iff]
  constructor
  · rintro ⟨hs, hr⟩
    obtain ⟨fs, rfl, h⟩ := reordered_frozen_iff.mp hr
    exact ⟨fs, ⟨rfl, hs⟩, h⟩
  · rintro ⟨fs, ⟨rfl, hs⟩, h⟩
    exact ⟨hs, reordered_frozen_iff.mpr ⟨fs, rfl, h⟩⟩

end

/-- Read by name, the two have the same keys with shuffled values, or neither has any. -/
inductive ReadShuffled (v w : Value) : Prop
  | mapping {es fs : Entries Value} (hv : v.Maps es) (hw : w.Maps fs)
    (hd : Entries.distinct (es.map (·.1)) = true) (h : Entries.Rearranged Shuffled es fs) :
    ReadShuffled v w
  | other (hv : v.hasEntries = false) (hw : w.hasEntries = false) : ReadShuffled v w

theorem Shuffled.read {v w : Value} (h : v.Shuffled w) : ReadShuffled v w := by
  have other : v.hasEntries = false → ReadShuffled v w := fun hv =>
    .other hv (h.reordered.hasEntries_eq ▸ hv)
  cases v with
  | scalar s => exact other rfl
  | list xs => exact other rfl
  | tuple xs => exact other rfl
  | map es =>
    obtain ⟨fs, rfl, hd, hef⟩ := shuffled_map_iff.mp h
    exact .mapping (.map es) (.map fs) hd hef
  | frozen es =>
    obtain ⟨fs, rfl, hd, hef⟩ := shuffled_frozen_iff.mp h
    exact .mapping (.frozen es) (.frozen fs) hd hef
  | pairs items => cases h.single.pairFree

theorem shuffled_field {es fs : Entries Value} (hd : Entries.distinct (es.map (·.1)) = true)
    (h : Entries.Rearranged Shuffled es fs) (name : String) {default : Value}
    (hs : default.Shuffled default) :
    ((es.field? name).getD default).Shuffled ((fs.field? name).getD default) := by
  cases hv : es.field? name with
  | none =>
    rw [h.field?_none hd hv]
    exact hs
  | some v =>
    obtain ⟨w, hw, hvw⟩ := h.field?_of_left hd hv
    rw [hw]
    exact hvw

theorem shuffled_empty : Shuffled (.map []) (.map []) :=
  shuffled_map_iff.mpr ⟨[], rfl, rfl, List.Forall₂.nil.rearranged⟩

/-! Plain and fixed forms. -/

theorem Shuffled.exists_plain {v w : Value} (h : v.Shuffled w) :
    ∃ p q, v.HasPlain p ∧ w.HasPlain q ∧ p.Shuffled q := by
  have mapping : ∀ {es fs : Entries Value}, Entries.distinct (es.map (·.1)) = true →
      Entries.Rearranged (fun v w => ∃ p q, v.HasPlain p ∧ w.HasPlain q ∧ p.Shuffled q) es fs →
      ∃ ps qs, Entries.Pointwise HasPlain es ps ∧ Entries.Pointwise HasPlain fs qs ∧
        Shuffled (.map ps) (.map qs) := by
    intro es fs hd h
    obtain ⟨ps, qs, hp, hq, hr⟩ := List.RearrangedUnder.exists_results h
    have keys : Entries.distinct (ps.map (·.1)) = true :=
      Entries.PointwiseAt.keys (R := fun _ => HasPlain) hp ▸ hd
    exact ⟨ps, qs, hp, hq, shuffled_map_iff.mpr ⟨qs, rfl, keys, hr⟩⟩
  induction v using Value.induction generalizing w with
  | scalar s =>
    cases h.reordered
    exact ⟨_, _, rfl, rfl, shuffled_scalar s⟩
  | list xs ih =>
    obtain ⟨ys, rfl, hxy⟩ := shuffled_list_iff.mp h
    obtain ⟨ps, qs, hp, hq, hr⟩ :=
      (hxy.imp_of_mem fun x hx _ _ h => ih x hx h).exists_results fun _ _ h => h
    exact ⟨_, _, hasPlain_list_iff.mpr ⟨ps, hp, rfl⟩, hasPlain_list_iff.mpr ⟨qs, hq, rfl⟩,
      shuffled_list_iff.mpr ⟨qs, rfl, hr⟩⟩
  | tuple xs ih =>
    obtain ⟨ys, rfl, hxy⟩ := shuffled_tuple_iff.mp h
    obtain ⟨ps, qs, hp, hq, hr⟩ :=
      (hxy.imp_of_mem fun x hx _ _ h => ih x hx h).exists_results fun _ _ h => h
    exact ⟨_, _, hasPlain_tuple_iff.mpr ⟨ps, hp, rfl⟩, hasPlain_tuple_iff.mpr ⟨qs, hq, rfl⟩,
      shuffled_list_iff.mpr ⟨qs, rfl, hr⟩⟩
  | map es ih =>
    obtain ⟨fs, rfl, hd, hef⟩ := shuffled_map_iff.mp h
    obtain ⟨ps, qs, hp, hq, hr⟩ :=
      mapping hd (hef.imp_of_mem fun e he _ _ h => ⟨h.1, ih e he h.2⟩)
    exact ⟨_, _, hasPlain_map_iff.mpr ⟨ps, hp, rfl⟩, hasPlain_map_iff.mpr ⟨qs, hq, rfl⟩, hr⟩
  | frozen es ih =>
    obtain ⟨fs, rfl, hd, hef⟩ := shuffled_frozen_iff.mp h
    obtain ⟨ps, qs, hp, hq, hr⟩ :=
      mapping hd (hef.imp_of_mem fun e he _ _ h => ⟨h.1, ih e he h.2⟩)
    exact ⟨_, _, hasPlain_frozen_iff.mpr ⟨ps, hp, rfl⟩, hasPlain_frozen_iff.mpr ⟨qs, hq, rfl⟩, hr⟩
  | pairs items _ _ => cases h.single.pairFree

theorem Shuffled.exists_fixed {p q : Value} (hp : p.isPlain = true) (h : p.Shuffled q) :
    ∃ f g, p.HasFixed f ∧ q.HasFixed g ∧ f.Shuffled g := by
  induction p using Value.induction generalizing q with
  | scalar s =>
    cases h.reordered
    exact ⟨_, _, rfl, rfl, shuffled_scalar s⟩
  | list xs ih =>
    have hi := isPlain_list_iff.mp hp
    obtain ⟨ys, rfl, hxy⟩ := shuffled_list_iff.mp h
    obtain ⟨fs, gs, hf, hg, hr⟩ :=
      (hxy.imp_of_mem fun x hx _ _ h => ih x hx (hi x hx) h).exists_results fun _ _ h => h
    exact ⟨_, _, hasFixed_list_iff.mpr ⟨fs, hf, rfl⟩, hasFixed_list_iff.mpr ⟨gs, hg, rfl⟩,
      shuffled_tuple_iff.mpr ⟨gs, rfl, hr⟩⟩
  | tuple xs _ => simp [isPlain, everyNode] at hp
  | map es ih =>
    have he := isPlain_map_iff.mp hp
    obtain ⟨fs, rfl, hd, hef⟩ := shuffled_map_iff.mp h
    obtain ⟨gs, hs, hg, hh, hr⟩ := List.RearrangedUnder.exists_results
      (hef.imp_of_mem fun e hm _ _ h => ⟨h.1, ih e hm (he e hm) h.2⟩)
    have keys : Entries.distinct (gs.map (·.1)) = true :=
      Entries.PointwiseAt.keys (R := fun _ => HasFixed) hg ▸ hd
    exact ⟨_, _, hasFixed_map_iff.mpr ⟨gs, hg, rfl⟩, hasFixed_map_iff.mpr ⟨hs, hh, rfl⟩,
      shuffled_frozen_iff.mpr ⟨hs, rfl, keys, hr⟩⟩
  | frozen es _ => simp [isPlain, everyNode] at hp
  | pairs items _ _ => simp [isPlain, everyNode] at hp

/-! Equality does not see the order either. -/

theorem includes_iff {es fs : Entries Value} : includes es fs = true ↔
    ∀ e ∈ es, ∃ other, Entries.get? fs e.1 = some other ∧ equal e.2 other = true := by
  induction es with
  | nil => simp [includes]
  | cons e rest ih =>
    obtain ⟨k, v⟩ := e
    rw [includes, Bool.and_eq_true, ih, List.forall_mem_cons]
    cases Entries.get? fs k <;> simp

theorem equalAll_iff {xs ys : List Value} :
    equalAll xs ys = true ↔ List.Forall₂ (fun x y => equal x y = true) xs ys := by
  induction xs generalizing ys with
  | nil => cases ys <;> simp [equalAll]
  | cons x rest ih => cases ys <;> simp [equalAll, ih]

/-- A value that equals itself, as all do that hold no undefined number, equals a reordered one. -/
theorem Reordered.equal {v w : Value} (h : v.Reordered w) (hw : v.isWellFormed = true)
    (hv : v.equal v = true) : v.equal w = true := by
  have sequence : ∀ {xs ys : List Value}, List.Forall₂ Reordered xs ys → equalAll xs xs = true →
      (∀ x ∈ xs, ∀ y, x.Reordered y → Value.equal x x = true → Value.equal x y = true) →
      equalAll xs ys = true := by
    intro xs ys h hself ih
    have self := List.forall₂_same.mp (equalAll_iff.mp hself)
    exact equalAll_iff.mpr (h.imp_of_mem fun x hx y _ hxy => ih x hx y hxy (self x hx))
  have mapping : ∀ {es fs : Entries Value}, Entries.Rearranged Reordered es fs →
      Entries.distinct (es.map (·.1)) = true →
      (es.length == es.length && includes es es) = true →
      (∀ e ∈ es, ∀ y, e.2.Reordered y → Value.equal e.2 e.2 = true → Value.equal e.2 y = true) →
      (es.length == fs.length && includes es fs) = true := by
    intro es fs h hd hself ih
    refine Bool.and_eq_true_iff.mpr ⟨beq_iff_eq.mpr h.length_eq, includes_iff.mpr fun e he => ?_⟩
    obtain ⟨other, hget, hequal⟩ := includes_iff.mp (Bool.and_eq_true_iff.mp hself).2 e he
    obtain ⟨hkey, rfl⟩ := Entries.eq_of_get? hd he hget
    obtain ⟨f, hf, hef, hr⟩ := h.exists_of_mem_left he
    refine ⟨f.2, ?_, ih e he f.2 hr hequal⟩
    rw [hef] at hkey ⊢
    exact Entries.get?_of_mem (h.distinct hd) hf hkey
  induction v using Value.induction generalizing w with
  | scalar s =>
    cases h
    exact hv
  | list xs ih =>
    obtain ⟨ys, rfl, hxy⟩ := reordered_list_iff.mp h
    have hi := ((everyNode_list_iff xs).mp hw).2
    exact sequence hxy hv fun x hx y hr => ih x hx hr (hi x hx)
  | tuple xs ih =>
    obtain ⟨ys, rfl, hxy⟩ := reordered_tuple_iff.mp h
    have hi := ((everyNode_tuple_iff xs).mp hw).2
    exact sequence hxy hv fun x hx y hr => ih x hx hr (hi x hx)
  | map es ih =>
    obtain ⟨fs, rfl, hef⟩ := reordered_map_iff.mp h
    obtain ⟨hd, he⟩ := (everyNode_map_iff es).mp hw
    exact mapping hef hd hv fun e hm y hr => ih e hm hr (he e hm)
  | frozen es ih =>
    obtain ⟨fs, rfl, hef⟩ := reordered_frozen_iff.mp h
    obtain ⟨hd, he⟩ := (everyNode_frozen_iff es).mp hw
    exact mapping hef hd hv fun e hm y hr => ih e hm hr (he e hm)
  | pairs items ih _ =>
    cases h with
    | pairs hxy =>
      have hi := ((everyNode_pairs_iff items).mp hw).2
      exact sequence hxy hv fun x hx y hr => ih x hx hr (hi x hx)

end Value

end ServiceModel
