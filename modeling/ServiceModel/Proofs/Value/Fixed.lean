import ServiceModel.Proofs.Value.Plain

/-!
# Laws of the fixed form

What is plain can be fixed, and the plain form of the result is what it was. What is fixed comes
back from its plain form. A value settles as another when that one is the fixed form of its plain
form: it is the fixed value with the same plain form.
-/
namespace ServiceModel

namespace Value

def HasFixed (value fixed : Value) : Prop := value.toFixed = .ok fixed

theorem HasFixed.unique {v f g : Value} (h : v.HasFixed f) (h' : v.HasFixed g) : f = g :=
  Except.ok.inj (h.symm.trans h')

theorem toFixedAll_eq_ok_iff {items fs : List Value} :
    toFixedAll items = .ok fs ↔ List.Forall₂ HasFixed items fs := by
  induction items generalizing fs with
  | nil => cases fs <;> simp [toFixedAll]
  | cons v rest ih =>
    cases fs <;> simp [toFixedAll, HasFixed, Fault.bind_eq_ok_iff, Fault.map_eq_ok_iff, ih]

theorem toFixedEntries_eq_ok_iff {es fs : Entries Value} :
    toFixedEntries es = .ok fs ↔ Entries.Pointwise HasFixed es fs := by
  induction es generalizing fs with
  | nil => cases fs <;> simp [toFixedEntries, Entries.Pointwise.nil_left_iff]
  | cons e rest ih =>
    obtain ⟨k, v⟩ := e
    cases fs with
    | nil =>
      simp [toFixedEntries, Fault.bind_eq_ok_iff, Fault.map_eq_ok_iff,
        Entries.Pointwise.nil_right_iff]
    | cons q more =>
      obtain ⟨l, f⟩ := q
      simp [toFixedEntries, HasFixed, Fault.bind_eq_ok_iff, Fault.map_eq_ok_iff, ih,
        Entries.Pointwise.cons_iff, and_assoc, and_left_comm, @eq_comm Key l]

theorem hasFixed_list_iff {items : List Value} {f : Value} :
    HasFixed (.list items) f ↔ ∃ fs, List.Forall₂ HasFixed items fs ∧ f = .tuple fs := by
  simp [HasFixed, toFixed, Fault.map_eq_ok_iff, toFixedAll_eq_ok_iff]

theorem hasFixed_tuple_iff {items : List Value} {f : Value} :
    HasFixed (.tuple items) f ↔ ∃ fs, List.Forall₂ HasFixed items fs ∧ f = .tuple fs := by
  simp [HasFixed, toFixed, Fault.map_eq_ok_iff, toFixedAll_eq_ok_iff]

theorem hasFixed_map_iff {es : Entries Value} {f : Value} :
    HasFixed (.map es) f ↔ ∃ fs, Entries.Pointwise HasFixed es fs ∧ f = .frozen fs := by
  simp [HasFixed, toFixed, Fault.map_eq_ok_iff, toFixedEntries_eq_ok_iff]

theorem hasFixed_frozen_iff {es : Entries Value} {f : Value} :
    HasFixed (.frozen es) f ↔ ∃ fs, Entries.Pointwise HasFixed es fs ∧ f = .frozen fs := by
  simp [HasFixed, toFixed, Fault.map_eq_ok_iff, toFixedEntries_eq_ok_iff]

theorem exists_hasFixed {p : Value} (h : p.isPlain = true) :
    ∃ f, p.HasFixed f ∧ f.isFixed = true ∧ f.HasPlain p := by
  induction p using Value.induction with
  | scalar s => exact ⟨.scalar s, rfl, rfl, rfl⟩
  | list items ih =>
    have hi := isPlain_list_iff.mp h
    obtain ⟨fs, hf⟩ := List.Forall₂.of_forall_exists fun v hv => ih v hv (hi v hv)
    refine ⟨.tuple fs, hasFixed_list_iff.mpr ⟨fs, hf.imp fun _ _ h => h.1, rfl⟩, ?_, ?_⟩
    · refine isFixed_tuple_iff.mpr fun f hm => ?_
      obtain ⟨_, -, -, hfixed, -⟩ := hf.exists_of_mem_right hm
      exact hfixed
    · exact hasPlain_tuple_iff.mpr ⟨items, (hf.imp fun _ _ h => h.2.2).flip, rfl⟩
  | tuple items ih => simp [isPlain, everyNode] at h
  | map es ih =>
    have he := isPlain_map_iff.mp h
    obtain ⟨fs, hf⟩ := Entries.Pointwise.of_forall_exists
      (R := fun v f => v.HasFixed f ∧ f.isFixed = true ∧ f.HasPlain v)
      fun e hm => ih e hm (he e hm)
    refine ⟨.frozen fs, hasFixed_map_iff.mpr ⟨fs, hf.imp fun _ _ h => h.imp_right And.left, rfl⟩,
      ?_, ?_⟩
    · refine isFixed_frozen_iff.mpr fun f hm => ?_
      obtain ⟨_, -, -, -, hfixed, -⟩ := hf.exists_of_mem_right hm
      exact hfixed
    · exact hasPlain_frozen_iff.mpr
        ⟨es, (hf.imp fun _ _ h => ⟨h.1.symm, h.2.2.2⟩).flip, rfl⟩
  | frozen es ih => simp [isPlain, everyNode] at h
  | pairs items _ _ => simp [isPlain, everyNode] at h

theorem exists_plain_of_isFixed {f : Value} (h : f.isFixed = true) :
    ∃ p, f.HasPlain p ∧ p.HasFixed f := by
  induction f using Value.induction with
  | scalar s => exact ⟨.scalar s, rfl, rfl⟩
  | list items ih => simp [isFixed, everyNode] at h
  | tuple items ih =>
    have hi := isFixed_tuple_iff.mp h
    obtain ⟨ps, hp⟩ := List.Forall₂.of_forall_exists fun v hv => ih v hv (hi v hv)
    exact ⟨.list ps, hasPlain_tuple_iff.mpr ⟨ps, hp.imp fun _ _ h => h.1, rfl⟩,
      hasFixed_list_iff.mpr ⟨items, (hp.imp fun _ _ h => h.2).flip, rfl⟩⟩
  | map es ih => simp [isFixed, everyNode] at h
  | frozen es ih =>
    have he := isFixed_frozen_iff.mp h
    obtain ⟨ps, hp⟩ := Entries.Pointwise.of_forall_exists
      (R := fun v p => v.HasPlain p ∧ p.HasFixed v) fun e hm => ih e hm (he e hm)
    exact ⟨.map ps, hasPlain_frozen_iff.mpr ⟨ps, hp.imp fun _ _ h => h.imp_right And.left, rfl⟩,
      hasFixed_map_iff.mpr ⟨es, (hp.imp fun _ _ h => ⟨h.1.symm, h.2.2⟩).flip, rfl⟩⟩
  | pairs items _ _ => simp [isFixed, everyNode] at h

/-- The second value is fixed, and has the same plain form as the first. -/
def Settles (value fixed : Value) : Prop :=
  fixed.isFixed = true ∧ ∃ plain, value.HasPlain plain ∧ fixed.HasPlain plain

theorem settles_iff {v f : Value} : v.Settles f ↔ ∃ p, v.HasPlain p ∧ p.HasFixed f := by
  constructor
  · rintro ⟨hf, p, hv, hp⟩
    obtain ⟨q, hq, hqf⟩ := exists_plain_of_isFixed hf
    obtain rfl := hp.unique hq
    exact ⟨p, hv, hqf⟩
  · rintro ⟨p, hv, hp⟩
    obtain ⟨g, hg, hfixed, hgp⟩ := exists_hasFixed (isPlain_of_hasPlain hv)
    obtain rfl := hp.unique hg
    exact ⟨hfixed, p, hv, hgp⟩

theorem exists_settles {v p : Value} (h : v.HasPlain p) : ∃ f, v.Settles f := by
  obtain ⟨f, hf, -⟩ := exists_hasFixed (isPlain_of_hasPlain h)
  exact ⟨f, settles_iff.mpr ⟨p, h, hf⟩⟩

end Value

end ServiceModel
