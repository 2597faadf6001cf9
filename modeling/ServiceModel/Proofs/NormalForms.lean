import ServiceModel.Proofs.Value.Recast
import ServiceModel.Proofs.Value.Repeats

/-!
# The plain and the fixed form agree

Making a tree plain and making it fixed are two readings of the same contents: each of them changes
nothing that has its form already, and each undoes the other. A pair list is the one container that
loses something in its plain form, namely all but the last of the entries under each key; what is
left stands where the first of them stood. Trees that hold no pair list are fixed without a loss,
directly or by way of their plain form.
-/
namespace ServiceModel.Value

/-- The second tree holds what the first one holds, in lists and maps. Of the entries under one key
the value of the last one is kept, in the place of the first. -/
inductive PlainForm : Value → Value → Prop
  | scalar (s : Scalar) : PlainForm (.scalar s) (.scalar s)
  | sequence {v : Value} {xs ps : List Value} (hv : v.Items xs)
    (h : List.Forall₂ PlainForm xs ps) : PlainForm v (.list ps)
  | mapping {v : Value} {es ps : Entries Value} (hv : v.Lists es)
    (h : List.Forall₂ (Entries.Under PlainForm) es ps) :
    PlainForm v (.map ((Entries.firsts ps).map fun e => (e.1, (Entries.last? ps e.1).getD e.2)))

variable {v p f : Value} {xs : List Value} {es : Entries Value}

theorem Lists.not_items (h : v.Lists es) : ¬ v.Items xs := by
  cases h <;> exact fun hi => nomatch hi

theorem Items.plainForm_iff (h : v.Items xs) :
    v.PlainForm p ↔ ∃ ps, List.Forall₂ PlainForm xs ps ∧ p = .list ps := by
  constructor
  · rintro (_ | ⟨hv, hp⟩ | ⟨hv, -⟩)
    · cases h
    · exact ⟨_, h.unique hv ▸ hp, rfl⟩
    · exact absurd h hv.not_items
  · rintro ⟨ps, hp, rfl⟩
    exact .sequence h hp

theorem Lists.plainForm_iff (h : v.Lists es) :
    v.PlainForm p ↔ ∃ ps, Entries.Pointwise PlainForm es ps ∧ p = .map (Entries.ofList ps) := by
  simp only [← forall₂_under_iff, Entries.ofList_eq]
  constructor
  · rintro (_ | ⟨hv, -⟩ | ⟨hv, hp⟩)
    · cases h
    · exact absurd hv h.not_items
    · exact ⟨_, h.unique hv ▸ hp, rfl⟩
  · rintro ⟨ps, hp, rfl⟩
    exact .mapping h hp

theorem hasPlain_iff_plainForm (hw : v.isWellFormed = true) : v.HasPlain p ↔ v.PlainForm p := by
  induction v, hw using wellFormed_induction generalizing p with
  | scalar s _ =>
    constructor
    · intro h
      cases h
      exact .scalar s
    · rintro (_ | ⟨hv, -⟩ | ⟨hv, -⟩)
      · rfl
      · cases hv
      · cases hv
  | sequence v xs hi _ _ ih =>
    rw [hi.hasPlain_iff, hi.plainForm_iff]
    refine exists_congr fun ps => and_congr_left' (List.Forall₂.iff_of_mem fun x hx q _ => ?_)
    exact ih x hx
  | mapping v es hl hw _ ih =>
    rw [hl.hasPlain_ofList_iff fun hm => hm.distinct hw, hl.plainForm_iff]
    refine exists_congr fun ps => and_congr_left' (List.Forall₂.iff_of_mem fun e he q _ => ?_)
    exact and_congr_right fun _ => ih e he

/-! The fixed form. -/

theorem hasFixed_self (h : f.isFixed = true) : f.HasFixed f := by
  induction f using Value.induction with
  | scalar s => rfl
  | list items ih => simp [isFixed, everyNode] at h
  | tuple items ih =>
    have hi := isFixed_tuple_iff.mp h
    exact hasFixed_tuple_iff.mpr
      ⟨items, List.forall₂_same.mpr fun x hx => ih x hx (hi x hx), rfl⟩
  | map es ih => simp [isFixed, everyNode] at h
  | frozen es ih =>
    have he := isFixed_frozen_iff.mp h
    exact hasFixed_frozen_iff.mpr
      ⟨es, List.forall₂_same.mpr fun e hm => ⟨rfl, ih e hm (he e hm)⟩, rfl⟩
  | pairs items _ _ => simp [isFixed, everyNode] at h

/-- Whatever the items of a sequence are fixed to is fixed, if this is so for each of them. -/
theorem Items.isFixed_of_hasFixed (hi : v.Items xs) (h : v.HasFixed f)
    (each : ∀ x ∈ xs, ∀ g, x.HasFixed g → g.isFixed = true) : f.isFixed = true := by
  obtain ⟨fs, hfs, rfl⟩ := hi.hasFixed_iff.mp h
  refine isFixed_tuple_iff.mpr fun g hg => ?_
  obtain ⟨x, hx, hxg⟩ := hfs.exists_of_mem_right hg
  exact each x hx g hxg

theorem IsMapping.isFixed_of_hasFixed (hm : v.IsMapping es) (h : v.HasFixed f)
    (each : ∀ e ∈ es, ∀ g, e.2.HasFixed g → g.isFixed = true) : f.isFixed = true := by
  obtain ⟨fs, hfs, rfl⟩ := hm.hasFixed_iff.mp h
  refine isFixed_frozen_iff.mpr fun g hg => ?_
  obtain ⟨e, he, -, heg⟩ := hfs.exists_of_mem_right hg
  exact each e he g.2 heg

theorem toFixedEach_eq_map (items : List Value) : toFixedEach items = items.map toFixed := by
  induction items with
  | nil => rfl
  | cons item rest ih => rw [toFixedEach, ih, List.map_cons]

/-- Read by position, a pair list has its own items for values. -/
theorem isFixed_of_hasFixed_pairs (h : HasFixed (.pairs xs) f)
    (each : ∀ x ∈ xs, ∀ g, x.HasFixed g → g.isFixed = true) : f.isFixed = true := by
  simp only [HasFixed, toFixed, toFixedEach_eq_map, Fault.bind_eq_ok_iff, Fault.mapM_eq_ok_iff,
    Fault.pure_eq_ok_iff] at h
  obtain ⟨ns, -, fs, hfs, rfl⟩ := h
  refine isFixed_frozen_iff.mpr fun g hg => ?_
  obtain ⟨n, -, value, hvalue, rfl⟩ := hfs.exists_of_mem_right hg
  rw [List.getD_eq_getElem?_getD, List.getElem?_map] at hvalue
  cases hx : xs[n.2]? with
  | none =>
    rw [hx] at hvalue
    cases hvalue
    rfl
  | some x =>
    rw [hx] at hvalue
    exact each x (List.mem_of_getElem? hx) value hvalue

theorem isFixed_of_hasFixed (h : v.HasFixed f) : f.isFixed = true := by
  induction v using Value.induction generalizing f with
  | scalar s =>
    cases h
    rfl
  | list xs ih => exact (Items.list xs).isFixed_of_hasFixed h fun x hx _ => ih x hx
  | tuple xs ih => exact (Items.tuple xs).isFixed_of_hasFixed h fun x hx _ => ih x hx
  | map es ih => exact IsMapping.isFixed_of_hasFixed (.inl rfl) h fun e he _ => ih e he
  | frozen es ih => exact IsMapping.isFixed_of_hasFixed (.inr rfl) h fun e he _ => ih e he
  | pairs xs ih _ => exact isFixed_of_hasFixed_pairs h fun x hx _ => ih x hx

/-- Without pair lists the detour by the plain form makes no difference. -/
theorem Single.hasFixed_of_plain (hs : v.Single) (hp : v.HasPlain p) (hf : p.HasFixed f) :
    v.HasFixed f := by
  obtain ⟨g, hg, recast⟩ := hs.exists_fixed
  have plain : g.HasPlain p := (recast.single_and_hasPlain hs).2 p hp
  obtain ⟨q, hq, hqg⟩ := settles_iff.mp ⟨isFixed_of_hasFixed hg, p, hp, plain⟩
  obtain rfl := hq.unique hp
  obtain rfl := hqg.unique hf
  exact hg

end ServiceModel.Value

namespace ServiceModel
open Value

/-- A tree that keeps the rules of decoding has a plain form, which is plain, its own plain form,
and the one tree that holds what the first one holds in this way. The plain form can be fixed; the
result is fixed, is its own fixed form, and has the plain form that it was made from. If the first
tree holds no pair list, all of this is the same for the tree fixed directly. -/
theorem normal_forms_agree {v : Value} (hw : v.isWellFormed = true) : ∃ plain fixed,
    v.toPlain = .ok plain ∧ plain.isPlain = true ∧ plain.toPlain = .ok plain ∧
    (∀ p, v.PlainForm p ↔ p = plain) ∧
    plain.toFixed = .ok fixed ∧ fixed.isFixed = true ∧ fixed.toPlain = .ok plain ∧
    fixed.toFixed = .ok fixed ∧
    (v.isPairFree = true → v.toFixed = .ok fixed) := by
  obtain ⟨plain, hp⟩ := exists_hasPlain_of_isWellFormed hw
  obtain ⟨fixed, hf, isFixed, back⟩ := exists_hasFixed (isPlain_of_hasPlain hp)
  refine ⟨plain, fixed, hp, isPlain_of_hasPlain hp, hp.plain, fun p => ?_, hf, isFixed, back,
    hasFixed_self isFixed, fun free => Single.hasFixed_of_plain ⟨free, hw⟩ hp hf⟩
  rw [← hasPlain_iff_plainForm hw]
  constructor
  · exact fun h => h.unique hp
  · rintro rfl
    exact hp

/-- One and true are one key, of which the first spelling and the last value stay; in the value
another key is repeated. The second tree has no such mapping, and is fixed as it stands. -/
theorem normal_forms_agree_of_repeated :
    (∃ v plain fixed : Value,
      v = .tuple [.pairs [entry (.int 1) (.scalar (.float ⟨"0.5"⟩)), entry (.str "k") (.frozen []),
        entry (.bool true) (.list [.pairs [entry .null (.int 0), entry .null (.tuple [])]])]] ∧
      plain = .list [.map [(.int 1, .list [.map [(.scalar .null, .list [])]]),
        (.str "k", .map [])]] ∧
      fixed = .tuple [.frozen [(.int 1, .tuple [.frozen [(.scalar .null, .tuple [])]]),
        (.str "k", .frozen [])]] ∧
      v.isWellFormed = true ∧ v.isPairFree = false ∧ v.toPlain = .ok plain ∧ v.PlainForm plain ∧
      plain.toPlain = .ok plain ∧ plain.toFixed = .ok fixed ∧ fixed.toPlain = .ok plain) ∧
    ∃ v plain fixed : Value,
      v = .frozen [(.tuple [.str "k"], .list [.tuple [.bool true], .map []])] ∧
      plain = .map [(.tuple [.str "k"], .list [.list [.bool true], .map []])] ∧
      fixed = .frozen [(.tuple [.str "k"], .tuple [.tuple [.bool true], .frozen []])] ∧
      v.isWellFormed = true ∧ v.isPairFree = true ∧ v.toPlain = .ok plain ∧ v.toFixed = .ok fixed ∧
      plain.toFixed = .ok fixed ∧ fixed.toPlain = .ok plain ∧ fixed.toFixed = .ok fixed := by
  constructor
  · have well : isWellFormed (.tuple [.pairs [entry (.int 1) (.scalar (.float ⟨"0.5"⟩)),
        entry (.str "k") (.frozen []), entry (.bool true) (.list [.pairs
          [entry .null (.int 0), entry .null (.tuple [])]])]]) = true := by decide
    obtain ⟨plain, fixed, hp, -, again, only, hf, -, back, -, -⟩ := normal_forms_agree well
    obtain rfl := Except.ok.inj hp
    obtain rfl := Except.ok.inj hf
    exact ⟨_, _, _, rfl, rfl, rfl, well, rfl, hp, (only _).mpr rfl, again, hf, back⟩
  · have well : isWellFormed (.frozen [(.tuple [.str "k"],
        .list [.tuple [.bool true], .map []])]) = true := by decide
    obtain ⟨plain, fixed, hp, -, -, -, hf, -, back, again, direct⟩ := normal_forms_agree well
    obtain rfl := Except.ok.inj hp
    obtain rfl := Except.ok.inj hf
    exact ⟨_, _, _, rfl, rfl, rfl, well, rfl, hp, direct rfl, hf, back, again⟩

end ServiceModel
