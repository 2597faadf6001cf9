import ServiceModel.Limits
import ServiceModel.Proofs.Value.Inherited

/-!
# Trees that the limits allow

Whatever is read from a tree that can be written can be written too, keys and plain forms included,
and a tree that can be written with half of the calls can be walked through with all of them. So the
limits allow everything that is read from a value that they allow.
-/
namespace ServiceModel

theorem Fault.forM_eq_ok_iff {α : Type} {f : α → Except Fault Unit} {items : List α} :
    items.forM f = .ok () ↔ ∀ a ∈ items, f a = .ok () := by
  induction items with
  | nil => simp [pure_eq_ok_iff]
  | cons a rest ih =>
    change (f a >>= fun _ => rest.forM f) = .ok () ↔ _
    rw [bind_eq_ok_iff, List.forall_mem_cons]
    exact ⟨fun ⟨_, ha, hr⟩ => ⟨ha, ih.mp hr⟩, fun ⟨ha, hr⟩ => ⟨(), ha, ih.mpr hr⟩⟩

namespace Limits
open Value
variable {limits : Limits} {calls : Nat} {value : Value}

/-- The value can be written while so many calls are left. -/
def Writes (limits : Limits) (calls : Nat) (value : Value) : Prop :=
  limits.writeWith calls value = .ok ()

theorem writes_list_iff {items : List Value} :
    limits.Writes (calls + 1) (.list items) ↔ ∀ item ∈ items, limits.Writes calls item :=
  Fault.forM_eq_ok_iff

theorem writes_tuple_iff {items : List Value} :
    limits.Writes (calls + 1) (.tuple items) ↔ ∀ item ∈ items, limits.Writes calls item :=
  Fault.forM_eq_ok_iff

theorem writes_pairs_iff {items : List Value} :
    limits.Writes (calls + 1) (.pairs items) ↔ ∀ item ∈ items, limits.Writes calls item :=
  Fault.forM_eq_ok_iff

theorem each_writes_iff {es : Entries Value} :
    (es.forM fun e => do
      limits.writeWith calls e.1.toValue
      limits.writeWith calls e.2) = .ok () ↔ es.Each (limits.Writes calls) := by
  refine Fault.forM_eq_ok_iff.trans (forall₂_congr fun e _ => ?_)
  rw [Fault.bind_eq_ok_iff]
  exact ⟨fun ⟨_, hk, hv⟩ => ⟨hk, hv⟩, fun ⟨hk, hv⟩ => ⟨(), hk, hv⟩⟩

theorem writes_map_iff {es : Entries Value} :
    limits.Writes (calls + 1) (.map es) ↔ es.Each (limits.Writes calls) :=
  each_writes_iff

theorem writes_frozen_iff {es : Entries Value} :
    limits.Writes (calls + 1) (.frozen es) ↔ es.Each (limits.Writes calls) :=
  each_writes_iff

theorem not_writes_zero : ¬ limits.Writes 0 value := by
  intro h
  cases h

theorem Writes.succ (h : limits.Writes calls value) : limits.Writes (calls + 1) value := by
  induction calls generalizing value with
  | zero => exact absurd h not_writes_zero
  | succ calls ih =>
    have each {es : Entries Value} (hes : es.Each (limits.Writes calls)) :
        es.Each (limits.Writes (calls + 1)) := fun e he => ⟨ih (hes e he).1, ih (hes e he).2⟩
    cases value with
    | scalar s => exact h
    | list items => exact writes_list_iff.mpr fun i hi => ih (writes_list_iff.mp h i hi)
    | tuple items => exact writes_tuple_iff.mpr fun i hi => ih (writes_tuple_iff.mp h i hi)
    | map es => exact writes_map_iff.mpr (each (writes_map_iff.mp h))
    | frozen es => exact writes_frozen_iff.mpr (each (writes_frozen_iff.mp h))
    | pairs items => exact writes_pairs_iff.mpr fun i hi => ih (writes_pairs_iff.mp h i hi)

theorem Writes.mono (h : limits.Writes calls value) {more : Nat} (hle : calls ≤ more) :
    limits.Writes more value := by
  induction hle with
  | refl => exact h
  | step _ ih => exact ih.succ

theorem writes_str (calls : Nat) (s : String) : limits.Writes (calls + 1) (.str s) := rfl

/-! What is read from a value. -/

theorem Writes.parts (h : limits.Writes (calls + 1) value) {items : List Value}
    (hp : value.parts = .ok items) : ∀ item ∈ items, limits.Writes (calls + 1) item := by
  cases value with
  | scalar s =>
    cases s with
    | str s =>
      obtain rfl := Except.ok.inj hp
      exact List.forall_mem_map.mpr fun c _ => writes_str calls _
    | _ => cases hp
  | list _ =>
    obtain rfl := Except.ok.inj hp
    exact fun item hi => (writes_list_iff.mp h item hi).succ
  | tuple _ =>
    obtain rfl := Except.ok.inj hp
    exact fun item hi => (writes_tuple_iff.mp h item hi).succ
  | map es =>
    obtain rfl := Except.ok.inj hp
    exact List.forall_mem_map.mpr fun e he => (writes_map_iff.mp h e he).1.succ
  | frozen es =>
    obtain rfl := Except.ok.inj hp
    exact List.forall_mem_map.mpr fun e he => (writes_frozen_iff.mp h e he).1.succ
  | pairs _ =>
    obtain rfl := Except.ok.inj hp
    exact fun item hi => (writes_pairs_iff.mp h item hi).succ

theorem Writes.split (h : limits.Writes calls value) {k v : Value}
    (hs : value.split = .ok (k, v)) : limits.Writes calls k ∧ limits.Writes calls v := by
  cases calls with
  | zero => exact absurd h not_writes_zero
  | succ calls =>
    unfold Value.split at hs
    split at hs
    · rename_i key item hp
      obtain ⟨rfl, rfl⟩ : key = k ∧ item = v := by simpa using hs
      obtain ⟨hkey, hitem⟩ := List.forall_mem_cons.mp (h.parts hp)
      exact ⟨hkey, hitem _ (List.mem_singleton_self _)⟩
    · cases hs
    · cases hs

theorem Writes.keyedEntries {items : List Value} (h : ∀ item ∈ items, limits.Writes calls item)
    {es : Entries Value} (hk : Value.keyedEntries items = .ok es) :
    es.Each (limits.Writes calls) := by
  intro e he
  obtain ⟨item, hi, hs⟩ := (keyedEntries_eq_ok_iff.mp hk).exists_of_mem_right he
  exact (h item hi).split hs

/-- What a pair list holds, read by position, are its items. -/
theorem Writes.byPosition {items : List Value} (h : ∀ item ∈ items, limits.Writes calls item)
    {es : Entries Value} (hp : Value.byPosition items = .ok es) :
    es.Each (limits.Writes calls) := by
  simp only [Value.byPosition, Fault.bind_eq_ok_iff, Fault.pure_eq_ok_iff] at hp
  obtain ⟨ns, hns, rfl⟩ := hp
  obtain ⟨placed, rfl, hplaced⟩ := exists_placed_of_positions hns
  intro e hm
  obtain ⟨n, hn, rfl⟩ := List.mem_map.mp hm
  obtain ⟨d, hd, hk⟩ := List.mem_map.mp (Entries.sides_of_mem_ofList hn).1
  obtain ⟨item, hi, -, v, hs⟩ := hplaced.exists_of_mem_right hd
  refine ⟨hk ▸ ((h item hi).split hs).1, ?_⟩
  dsimp only
  rw [List.getD_eq_getElem?_getD]
  cases hitem : items[n.2]? with
  | some item => exact h item (List.mem_of_getElem? hitem)
  | none =>
    cases calls with
    | zero => exact absurd (h item hi) not_writes_zero
    | succ calls => rfl

theorem Writes.entries (h : limits.Writes calls value) {es : Entries Value}
    (he : value.entries? = .ok (some es)) : limits.Writes calls (.map es) := by
  cases calls with
  | zero => exact absurd h not_writes_zero
  | succ calls =>
    rcases entries?_eq_ok_some_iff.mp he with rfl | rfl | ⟨items, rfl, hp⟩
    · exact h
    · exact writes_map_iff.mpr (writes_frozen_iff.mp h)
    · simp only [entries?, Fault.bind_eq_ok_iff, Fault.pure_eq_ok_iff, Option.some.injEq] at hp
      obtain ⟨_, hread, rfl⟩ := hp
      exact writes_map_iff.mpr (Writes.byPosition (writes_pairs_iff.mp h) hread)

theorem Writes.listed (h : limits.Writes calls value) {es : Entries Value} (hl : value.Lists es) :
    es.Each (limits.Writes calls) := by
  cases calls with
  | zero => exact absurd h not_writes_zero
  | succ calls =>
    have more {es : Entries Value} (hes : es.Each (limits.Writes calls)) :
        es.Each (limits.Writes (calls + 1)) := fun e he => ⟨(hes e he).1.succ, (hes e he).2.succ⟩
    cases hl with
    | map => exact more (writes_map_iff.mp h)
    | frozen => exact more (writes_frozen_iff.mp h)
    | pairs hk => exact more (Writes.keyedEntries (writes_pairs_iff.mp h) hk)

theorem Writes.items (h : limits.Writes (calls + 1) value) {items : List Value}
    (hi : value.items? = some items) : ∀ item ∈ items, limits.Writes (calls + 1) item := by
  have entries {es : Entries Value} (hes : es.Each (limits.Writes calls)) :
      ∀ item ∈ es.map fun e => entry e.1.toValue e.2, limits.Writes (calls + 1) item :=
    List.forall_mem_map.mpr fun e he => writes_tuple_iff.mpr
      (List.forall_mem_cons.mpr ⟨(hes e he).1, List.forall_mem_singleton.mpr (hes e he).2⟩)
  rcases value with (_ | _ | _ | _ | _) | _ | _ | es | es | _
  case map =>
    obtain rfl := Option.some.inj hi
    exact entries (writes_map_iff.mp h)
  case frozen =>
    obtain rfl := Option.some.inj hi
    exact entries (writes_frozen_iff.mp h)
  case pairs =>
    obtain rfl := Option.some.inj hi
    exact fun item hm => (writes_pairs_iff.mp h item hm).succ
  all_goals cases hi

theorem Writes.plain (h : limits.Writes calls value) {plain : Value} (hp : value.HasPlain plain) :
    limits.Writes calls plain := by
  induction calls generalizing value plain with
  | zero => exact absurd h not_writes_zero
  | succ calls ih =>
    have sequence {vs ps : List Value} (hq : List.Forall₂ HasPlain vs ps)
        (hvs : ∀ v ∈ vs, limits.Writes calls v) : limits.Writes (calls + 1) (.list ps) := by
      refine writes_list_iff.mpr fun p hm => ?_
      obtain ⟨v, hv, hvp⟩ := hq.exists_of_mem_right hm
      exact ih (hvs v hv) hvp
    have mapping {es ps : Entries Value} (hq : Entries.Pointwise HasPlain es ps)
        (hes : es.Each (limits.Writes calls)) : ps.Each (limits.Writes calls) := by
      intro p hm
      obtain ⟨e, he, hk, hep⟩ := hq.exists_of_mem_right hm
      exact ⟨hk ▸ (hes e he).1, ih (hes e he).2 hep⟩
    cases value with
    | scalar s =>
      cases hp
      exact h
    | list items =>
      obtain ⟨ps, hq, rfl⟩ := hasPlain_list_iff.mp hp
      exact sequence hq (writes_list_iff.mp h)
    | tuple items =>
      obtain ⟨ps, hq, rfl⟩ := hasPlain_tuple_iff.mp hp
      exact sequence hq (writes_tuple_iff.mp h)
    | map es =>
      obtain ⟨ps, hq, rfl⟩ := hasPlain_map_iff.mp hp
      exact writes_map_iff.mpr (mapping hq (writes_map_iff.mp h))
    | frozen es =>
      obtain ⟨ps, hq, rfl⟩ := hasPlain_frozen_iff.mp hp
      exact writes_map_iff.mpr (mapping hq (writes_frozen_iff.mp h))
    | pairs items =>
      obtain ⟨es, ps, he, hq, rfl⟩ := hasPlain_pairs_iff.mp hp
      have read := Writes.keyedEntries (writes_pairs_iff.mp h) he
      exact writes_map_iff.mpr (mapping hq read).ofList

/-- Everything that is read from a tree can be written if the tree can. -/
theorem inherited_writes (limits : Limits) (calls : Nat) :
    Value.Inherited (limits.Writes (calls + 1)) where
  null := rfl
  empty := rfl
  fixed s _ := writes_str calls s
  list h item hi := (writes_list_iff.mp h item hi).succ
  tuple h item hi := (writes_tuple_iff.mp h item hi).succ
  pairs h item hi := (writes_pairs_iff.mp h item hi).succ
  map h := h.listed (.map _)
  entries h he := h.entries he
  listed h hl := h.listed hl
  split h hi hs e he := by
    obtain ⟨item, hm, hsplit⟩ := (Fault.mapM_eq_ok_iff.mp hs).exists_of_mem_right he
    exact (h.items hi item hm).split hsplit
  plain h hp := h.plain hp

/-! Walking through a value takes no more than twice the calls of writing it. -/

theorem walkWith_of_writes (h : limits.Writes calls value) {more : Nat} (hle : 2 * calls ≤ more) :
    walkWith more value = .ok () := by
  induction calls generalizing value more with
  | zero => exact absurd h not_writes_zero
  | succ calls ih =>
    obtain ⟨more, rfl⟩ : ∃ m, more = m + 2 := ⟨more - 2, by omega⟩
    have below : 2 * calls ≤ more := by omega
    have each {es : Entries Value} (hes : es.Each (limits.Writes calls)) :
        es.forM (fun e => walkWith more e.2) = .ok () :=
      Fault.forM_eq_ok_iff.mpr fun e he => ih (hes e he).2 below
    cases value with
    | scalar s => rfl
    | list items =>
      exact Fault.forM_eq_ok_iff.mpr fun i hi => ih (writes_list_iff.mp h i hi) below
    | tuple items =>
      exact Fault.forM_eq_ok_iff.mpr fun i hi => ih (writes_tuple_iff.mp h i hi) below
    | map es => exact each (writes_map_iff.mp h)
    | frozen es => exact each (writes_frozen_iff.mp h)
    | pairs items =>
      rw [walkWith]
      split
      · rename_i es hk
        exact each (Writes.keyedEntries (writes_pairs_iff.mp h) hk)
      · rfl

/-! What the limits allow. -/

theorem allows_iff : limits.allows value = true ↔ limits.Writes (limits.calls / 2) value := by
  rw [allows, Fault.isOk_iff]
  exact ⟨fun ⟨_, h⟩ => h, fun h => ⟨(), h⟩⟩

/-- Half of the calls are none only if there is no value to be written with them. -/
theorem inherited_allows (h : limits.allows value = true) :
    Value.Inherited fun value => limits.allows value = true := by
  simp only [allows_iff] at h ⊢
  cases hc : limits.calls / 2 with
  | zero => exact absurd (hc ▸ h) not_writes_zero
  | succ calls => exact inherited_writes limits calls

theorem write_of_allows (h : limits.allows value = true) : limits.write value = .ok () :=
  (allows_iff.mp h).mono (Nat.div_le_self _ _)

/-- Where a value is allowed, texts can be written, and also a path of texts. -/
theorem write_texts (h : limits.allows value = true) (texts : List String) :
    limits.write (.tuple (texts.map .str)) = .ok () := by
  obtain ⟨calls, hc⟩ : ∃ calls, limits.calls = calls + 2 := by
    refine ⟨limits.calls - 2, ?_⟩
    have some : limits.calls / 2 ≠ 0 := fun hn => not_writes_zero (hn ▸ allows_iff.mp h)
    omega
  rw [write, hc]
  exact writes_tuple_iff.mpr (List.forall_mem_map.mpr fun text _ => writes_str calls text)

theorem walk_of_allows (h : limits.allows value = true) : limits.walk value = .ok () :=
  walkWith_of_writes (allows_iff.mp h) (Nat.mul_div_le _ _)

end Limits

end ServiceModel
