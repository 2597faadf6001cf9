import Mathlib.Data.List.Perm.Basic
import ServiceModel.Proofs.Value.Entries

/-!
# Lists that correspond in some order

The items of one list have their counterparts in the other, but these come in an order of their own.
What is computed item by item corresponds in the same way. Two mappings correspond if they have the
same keys; as long as no key repeats, a look-up does not see the order.
-/
namespace List
variable {α β γ δ : Type} {R : α → β → Prop} {xs : List α} {ys : List β}

/-- The second list has the counterparts of the items of the first, in any order. -/
def Rearranged (R : α → β → Prop) (xs : List α) (ys : List β) : Prop :=
  ∃ zs, Forall₂ R xs zs ∧ zs.Perm ys

theorem Forall₂.exists_results {P : α → γ → Prop} {Q : β → δ → Prop} {S : γ → δ → Prop}
    (h : Forall₂ R xs ys) (hR : ∀ x y, R x y → ∃ a b, P x a ∧ Q y b ∧ S a b) :
    ∃ as bs, Forall₂ P xs as ∧ Forall₂ Q ys bs ∧ Forall₂ S as bs := by
  induction h with
  | nil => exact ⟨[], [], .nil, .nil, .nil⟩
  | cons hxy _ ih =>
    obtain ⟨a, b, ha, hb, hS⟩ := hR _ _ hxy
    obtain ⟨as, bs, has, hbs, hrest⟩ := ih
    exact ⟨a :: as, b :: bs, .cons ha has, .cons hb hbs, .cons hS hrest⟩

theorem Forall₂.rearranged (h : Forall₂ R xs ys) : Rearranged R xs ys := ⟨ys, h, .refl ys⟩

namespace Rearranged

theorem perm_left {others : List α} (hp : others.Perm xs) (h : Rearranged R xs ys) :
    Rearranged R others ys := by
  obtain ⟨zs, hR, hz⟩ := h
  obtain ⟨zs', hR', hz'⟩ := perm_comp_forall₂ hp hR
  exact ⟨zs', hR', hz'.trans hz⟩

theorem perm_right {others : List β} (h : Rearranged R xs ys) (hp : ys.Perm others) :
    Rearranged R xs others := by
  obtain ⟨zs, hR, hz⟩ := h
  exact ⟨zs, hR, hz.trans hp⟩

theorem imp_of_mem {S : α → β → Prop} (h : Rearranged R xs ys)
    (hS : ∀ x ∈ xs, ∀ y ∈ ys, R x y → S x y) : Rearranged S xs ys := by
  obtain ⟨zs, hR, hz⟩ := h
  exact ⟨zs, hR.imp_of_mem fun x hx z hm => hS x hx z (hz.mem_iff.mp hm), hz⟩

theorem imp {S : α → β → Prop} (h : Rearranged R xs ys) (hS : ∀ x y, R x y → S x y) :
    Rearranged S xs ys :=
  h.imp_of_mem fun x _ y _ => hS x y

theorem exists_of_mem_left (h : Rearranged R xs ys) {x : α} (hx : x ∈ xs) : ∃ y ∈ ys, R x y := by
  obtain ⟨zs, hR, hz⟩ := h
  obtain ⟨z, hm, hxz⟩ := hR.exists_of_mem_left hx
  exact ⟨z, hz.mem_iff.mp hm, hxz⟩

theorem length_eq (h : Rearranged R xs ys) : xs.length = ys.length := by
  obtain ⟨zs, hR, hz⟩ := h
  exact hR.length_eq.trans hz.length_eq

theorem map {S : γ → δ → Prop} {f : α → γ} {g : β → δ} (h : Rearranged R xs ys)
    (hS : ∀ x y, R x y → S (f x) (g y)) : Rearranged S (xs.map f) (ys.map g) := by
  obtain ⟨zs, hR, hz⟩ := h
  refine ⟨zs.map g, ?_, hz.map g⟩
  rw [forall₂_map_left_iff, forall₂_map_right_iff]
  exact hR.imp hS

theorem filterMap {S : γ → δ → Prop} {f : α → Option γ} {g : β → Option δ}
    (h : Rearranged R xs ys) (hS : ∀ x y, R x y → Option.Rel S (f x) (g y)) :
    Rearranged S (xs.filterMap f) (ys.filterMap g) := by
  obtain ⟨zs, hR, hz⟩ := h
  exact ⟨zs.filterMap g, rel_filterMap (fun {x y} => hS x y) hR, hz.filterMap g⟩

/-- Items whose counterparts are the items themselves. -/
theorem eq_iff {ys : List α} : Rearranged Eq xs ys ↔ xs.Perm ys := by
  unfold Rearranged
  rw [forall₂_eq_eq_eq]
  exact ⟨fun ⟨_, hx, hp⟩ => hx ▸ hp, fun hp => ⟨xs, rfl, hp⟩⟩

theorem perm_map {f : α → γ} {g : β → γ} (h : Rearranged R xs ys)
    (same : ∀ x y, R x y → f x = g y) : (xs.map f).Perm (ys.map g) :=
  eq_iff.mp (h.map same)

theorem perm_flatMap {f : α → List γ} {g : β → List γ} (h : Rearranged R xs ys)
    (hp : ∀ x y, R x y → (f x).Perm (g y)) : (xs.flatMap f).Perm (ys.flatMap g) := by
  obtain ⟨zs, hR, hz⟩ := h
  refine Perm.trans ?_ (hz.flatMap_right g)
  induction hR generalizing ys with
  | nil => exact .refl []
  | cons hxz _ ih =>
    rw [flatMap_cons, flatMap_cons]
    exact (hp _ _ hxz).append (ih (.refl _))

/-- Where each pair of counterparts has results that correspond, the lists of results do. -/
theorem exists_results {P : α → γ → Prop} {Q : β → δ → Prop} {S : γ → δ → Prop}
    (h : Rearranged R xs ys) (hR : ∀ x y, R x y → ∃ a b, P x a ∧ Q y b ∧ S a b) :
    ∃ as bs, Forall₂ P xs as ∧ Forall₂ Q ys bs ∧ Rearranged S as bs := by
  obtain ⟨zs, hxz, hz⟩ := h
  obtain ⟨as, cs, has, hcs, hS⟩ := hxz.exists_results hR
  obtain ⟨bs, hbs, hperm⟩ := perm_comp_forall₂ hz.symm hcs
  exact ⟨as, bs, has, hbs, cs, hS, hperm.symm⟩

end Rearranged

/-- The same keys in any order, and related values under each. -/
abbrev RearrangedUnder {κ : Type} (R : α → β → Prop) : List (κ × α) → List (κ × β) → Prop :=
  Rearranged fun e f => e.1 = f.1 ∧ R e.2 f.2

theorem RearrangedUnder.exists_results {κ : Type} {es : List (κ × α)} {fs : List (κ × β)}
    {P : α → γ → Prop} {Q : β → δ → Prop} {S : γ → δ → Prop}
    (h : RearrangedUnder (fun v w => ∃ a b, P v a ∧ Q w b ∧ S a b) es fs) :
    ∃ as bs, Forall₂ (fun e a => e.1 = a.1 ∧ P e.2 a.2) es as ∧
      Forall₂ (fun f b => f.1 = b.1 ∧ Q f.2 b.2) fs bs ∧ RearrangedUnder S as bs := by
  refine Rearranged.exists_results h ?_
  rintro e f ⟨hk, a, b, ha, hb, hS⟩
  exact ⟨(e.1, a), (f.1, b), ⟨rfl, ha⟩, ⟨rfl, hb⟩, hk, hS⟩

end List

namespace ServiceModel.Entries
variable {α β : Type} {es : Entries α} {fs : Entries β}

abbrev Rearranged (R : α → β → Prop) : Entries α → Entries β → Prop := List.RearrangedUnder R

theorem field?_of_perm {others : Entries α} (hd : distinct (es.map (·.1)) = true)
    (h : others.Perm es) (name : String) : others.field? name = es.field? name := by
  have hd' : distinct (others.map (·.1)) = true :=
    (distinct_iff _).mpr (List.pairwise_map.mpr (pairwise_of_perm hd h))
  refine Option.ext fun value => ?_
  exact ⟨fun hv => field?_of_mem hd (h.mem_iff.mp (mem_of_field? hv)),
    fun hv => field?_of_mem hd' (h.mem_iff.mpr (mem_of_field? hv))⟩

namespace Rearranged
variable {R : α → β → Prop}

theorem keys (h : Rearranged R es fs) : (es.map (·.1)).Perm (fs.map (·.1)) :=
  h.perm_map fun _ _ he => he.1

theorem distinct (h : Rearranged R es fs) (hd : Entries.distinct (es.map (·.1)) = true) :
    Entries.distinct (fs.map (·.1)) = true := by
  rw [distinct_iff] at hd ⊢
  exact (h.keys.pairwise_iff fun {k l} he => (Key.same_comm l k).trans he).mp hd

section
variable (h : Rearranged R es fs) (hd : Entries.distinct (es.map (·.1)) = true) {name : String}
include h hd

theorem field?_of_left {v : α} (hv : es.field? name = some v) :
    ∃ w, fs.field? name = some w ∧ R v w := by
  have hf := h.distinct hd
  obtain ⟨gs, hR, hg⟩ := h
  rw [← field?_of_perm hf hg]
  exact PointwiseAt.field?_of_left (R := fun _ => R) hR hv

theorem field?_none (hn : es.field? name = none) : fs.field? name = none := by
  have hf := h.distinct hd
  obtain ⟨gs, hR, hg⟩ := h
  rw [← field?_of_perm hf hg]
  exact PointwiseAt.field?_none (R := fun _ => R) hR hn

end

end Rearranged

end ServiceModel.Entries
