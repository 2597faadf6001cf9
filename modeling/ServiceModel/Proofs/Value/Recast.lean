import ServiceModel.Proofs.Shape.Language
import ServiceModel.Proofs.Value.Decoded
import ServiceModel.Proofs.Value.Reordered

/-!
# Trees recast in other containers

A sequence is a list or a tuple, and a mapping is open to change or fixed. A tree is recast by
giving any of its sequences and mappings the other form; their contents and their order stay. The
plain form of a tree without pair lists is the tree recast, and so is its fixed form. All the trees
that one can be recast as have one plain form.
-/
namespace ServiceModel.Value

/-- The second tree is the first, with any sequences and mappings in other containers. -/
inductive Recast : Value → Value → Prop
  | scalar (s : Scalar) : Recast (.scalar s) (.scalar s)
  | sequence {v w : Value} {xs ys : List Value} (hv : v.Items xs) (hw : w.Items ys)
    (h : List.Forall₂ Recast xs ys) : Recast v w
  | mapping {v w : Value} {es fs : Entries Value} (hv : v.IsMapping es) (hw : w.IsMapping fs)
    (h : List.Forall₂ (Entries.Under Recast) es fs) : Recast v w

variable {v w : Value} {xs ys : List Value} {es fs : Entries Value}

theorem Items.unique (h : v.Items xs) (h' : v.Items ys) : xs = ys := by
  cases h <;> cases h' <;> rfl

theorem IsMapping.not_items (h : v.IsMapping es) : ¬ v.Items xs := by
  rcases h with rfl | rfl <;> exact fun hi => nomatch hi

theorem forall₂_under_iff {R : Value → Value → Prop} :
    List.Forall₂ (Entries.Under R) es fs ↔ Entries.Pointwise R es fs :=
  ⟨fun h => h.imp fun _ _ => Entries.under_iff.mp, fun h => h.imp fun _ _ => Entries.under_iff.mpr⟩

theorem Items.recast_iff (h : v.Items xs) :
    v.Recast w ↔ ∃ ys, w.Items ys ∧ List.Forall₂ Recast xs ys := by
  constructor
  · rintro (_ | ⟨hv, hw, hr⟩ | ⟨hv, -, -⟩)
    · cases h
    · exact ⟨_, hw, h.unique hv ▸ hr⟩
    · exact absurd h hv.not_items
  · rintro ⟨ys, hw, hr⟩
    exact .sequence h hw hr

theorem IsMapping.recast_iff (h : v.IsMapping es) :
    v.Recast w ↔ ∃ fs, w.IsMapping fs ∧ Entries.Pointwise Recast es fs := by
  simp only [← forall₂_under_iff]
  constructor
  · rintro (_ | ⟨hv, -, -⟩ | ⟨hv, hw, hr⟩)
    · rcases h with h | h <;> cases h
    · exact absurd hv h.not_items
    · exact ⟨_, hw, h.maps.lists.unique hv.maps.lists ▸ hr⟩
  · rintro ⟨fs, hw, hr⟩
    exact .mapping h hw hr

/-! Trees in which no key is repeated, node by node. -/

theorem Items.single_iff (h : v.Items xs) : v.Single ↔ ∀ x ∈ xs, x.Single := by
  cases h with
  | list => exact single_list_iff
  | tuple => exact single_tuple_iff

theorem IsMapping.single_iff (h : v.IsMapping es) :
    v.Single ↔ Entries.distinct (es.map (·.1)) = true ∧ ∀ e ∈ es, e.2.Single := by
  rcases h with rfl | rfl
  · exact single_map_iff
  · exact single_frozen_iff

/-- In a tree without pair lists it does not matter which form a container has. -/
@[elab_as_elim]
theorem Single.induction {P : ∀ v : Value, v.Single → Prop}
    (scalar : ∀ s (h : Single (.scalar s)), P (.scalar s) h)
    (sequence : ∀ v xs (_ : v.Items xs) (h : v.Single) (each : ∀ x ∈ xs, x.Single),
      (∀ x (hx : x ∈ xs), P x (each x hx)) → P v h)
    (mapping : ∀ v es (_ : v.IsMapping es) (h : v.Single) (each : ∀ e ∈ es, e.2.Single),
      (∀ e (he : e ∈ es), P e.2 (each e he)) → P v h)
    (v : Value) (h : v.Single) : P v h := by
  obtain ⟨free, well⟩ := h
  induction v, well using wellFormed_induction with
  | scalar s well => exact scalar s ⟨free, well⟩
  | sequence v xs hi well _ ih =>
    have each := hi.single_iff.mp ⟨free, well⟩
    exact sequence v xs hi ⟨free, well⟩ each fun x hx => ih x hx (each x hx).pairFree
  | mapping v es hl well _ ih =>
    have hm := IsMapping.of_lists free hl
    have each := (hm.single_iff.mp ⟨free, well⟩).2
    exact mapping v es hm ⟨free, well⟩ each fun e he => ih e he (each e he).pairFree

theorem Single.isDecoded (h : v.Single) : v.isDecoded = true := by
  induction v, h using Single.induction with
  | scalar s h => rfl
  | sequence v xs hi h _ ih =>
    cases hi with
    | list => exact (everyNode_list_iff xs).mpr ⟨rfl, ih⟩
    | tuple => exact (everyNode_tuple_iff xs).mpr ⟨rfl, ih⟩
  | mapping v es hm h _ ih =>
    have hd := (hm.single_iff.mp h).1
    rcases hm with rfl | rfl
    · exact (everyNode_map_iff es).mpr ⟨hd, ih⟩
    · exact (everyNode_frozen_iff es).mpr ⟨hd, ih⟩

/-- A tree that is recast stays one in which no key is repeated, and keeps its plain form. -/
theorem Recast.single_and_hasPlain (h : v.Recast w) (hs : v.Single) :
    w.Single ∧ ∀ p, v.HasPlain p → w.HasPlain p := by
  induction v, hs using Single.induction generalizing w with
  | scalar s hs =>
    rcases h with _ | ⟨hv, -, -⟩ | ⟨hv, -, -⟩
    · exact ⟨⟨rfl, rfl⟩, fun p hp => hp⟩
    · cases hv
    · rcases hv with hv | hv <;> cases hv
  | sequence v xs hi hs _ ih =>
    obtain ⟨ys, hw, hr⟩ := hi.recast_iff.mp h
    have each := hr.imp_of_mem fun x hx y _ h => ih x hx h
    refine ⟨hw.single_iff.mpr fun y hy => ?_, fun p hp => ?_⟩
    · obtain ⟨x, -, hy, -⟩ := each.exists_of_mem_right hy
      exact hy
    · obtain ⟨ps, hps, rfl⟩ := hi.hasPlain_iff.mp hp
      refine hw.hasPlain_iff.mpr ⟨ps, each.across hps fun _ _ y p h hp => ?_, rfl⟩
      exact h.2 p hp
  | mapping v es hm hs _ ih =>
    obtain ⟨fs, hw, hr⟩ := hm.recast_iff.mp h
    have each : Entries.Pointwise (fun x y => y.Single ∧ ∀ p, x.HasPlain p → y.HasPlain p) es fs :=
      hr.imp_of_mem fun e he f _ h => ⟨h.1, ih e he h.2⟩
    refine ⟨hw.single_iff.mpr ⟨hr.keys ▸ (hm.single_iff.mp hs).1, fun f hf => ?_⟩, fun p hp => ?_⟩
    · obtain ⟨e, -, -, hf, -⟩ := each.exists_of_mem_right hf
      exact hf
    · obtain ⟨ps, hps, rfl⟩ := hm.maps.hasPlain_iff.mp hp
      refine hw.maps.hasPlain_iff.mpr ⟨ps, each.across hps fun _ _ f p h hp => ?_, rfl⟩
      exact ⟨h.1.symm.trans hp.1, h.2.2 p.2 hp.2⟩

/-! The plain and the fixed form. -/

theorem Single.recast_of_hasPlain {p : Value} (hs : v.Single) (h : v.HasPlain p) :
    v.Recast p := by
  induction v, hs using Single.induction generalizing p with
  | scalar s hs =>
    cases h
    exact .scalar s
  | sequence v xs hi hs _ ih =>
    obtain ⟨ps, hps, rfl⟩ := hi.hasPlain_iff.mp h
    exact .sequence hi (.list ps) (hps.imp_of_mem fun x hx _ _ h => ih x hx h)
  | mapping v es hm hs _ ih =>
    obtain ⟨ps, hps, rfl⟩ := hm.maps.hasPlain_iff.mp h
    exact hm.recast_iff.mpr
      ⟨ps, .inl rfl, hps.imp_of_mem fun e he _ _ h => ⟨h.1, ih e he h.2⟩⟩

theorem Items.hasFixed_iff {f : Value} (h : v.Items xs) :
    v.HasFixed f ↔ ∃ fs, List.Forall₂ HasFixed xs fs ∧ f = .tuple fs := by
  cases h with
  | list => exact hasFixed_list_iff
  | tuple => exact hasFixed_tuple_iff

theorem IsMapping.hasFixed_iff {f : Value} (h : v.IsMapping es) :
    v.HasFixed f ↔ ∃ fs, Entries.Pointwise HasFixed es fs ∧ f = .frozen fs := by
  rcases h with rfl | rfl
  · exact hasFixed_map_iff
  · exact hasFixed_frozen_iff

theorem Single.exists_fixed (hs : v.Single) : ∃ f, v.HasFixed f ∧ v.Recast f := by
  induction v, hs using Single.induction with
  | scalar s hs => exact ⟨.scalar s, rfl, .scalar s⟩
  | sequence v xs hi hs _ ih =>
    obtain ⟨fs, hfs⟩ := List.Forall₂.of_forall_exists ih
    exact ⟨.tuple fs, hi.hasFixed_iff.mpr ⟨fs, hfs.imp fun _ _ h => h.1, rfl⟩,
      .sequence hi (.tuple fs) (hfs.imp fun _ _ h => h.2)⟩
  | mapping v es hm hs _ ih =>
    obtain ⟨fs, hfs⟩ := Entries.Pointwise.of_forall_exists
      (R := fun v f => HasFixed v f ∧ Recast v f) ih
    exact ⟨.frozen fs, hm.hasFixed_iff.mpr ⟨fs, hfs.imp fun _ _ h => ⟨h.1, h.2.1⟩, rfl⟩,
      hm.recast_iff.mpr ⟨fs, .inr rfl, hfs.imp fun _ _ h => ⟨h.1, h.2.2⟩⟩⟩

end ServiceModel.Value
