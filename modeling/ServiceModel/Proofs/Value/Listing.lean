import ServiceModel.Proofs.Correspondence
import ServiceModel.Proofs.Runs
import ServiceModel.Proofs.Value.Entries
import ServiceModel.Value.Mapping

/-!
# Reading a value as a mapping or a sequence

A value lists its entries one by one, whatever form of mapping it is. Read by name, a pair list is
a mapping only if it is empty: the reading by position gives it numbers for keys.
-/
namespace ServiceModel

namespace Value

mutual

theorem toKey?_eq_some_iff : ∀ (value : Value) (k : Key),
    value.toKey? = some k ↔ value = k.toValue
  | .scalar s, k => by cases k <;> simp [toKey?, Key.toValue]
  | .tuple items, k => by
    cases k with
    | scalar s => simp [toKey?, Key.toValue]
    | tuple keys => simp [toKey?, Key.toValue, toKeys?_eq_some_iff items]
  | .list items, k => by cases k <;> simp [toKey?, Key.toValue]
  | .map entries, k => by cases k <;> simp [toKey?, Key.toValue]
  | .frozen entries, k => by cases k <;> simp [toKey?, Key.toValue]
  | .pairs items, k => by cases k <;> simp [toKey?, Key.toValue]

theorem toKeys?_eq_some_iff : ∀ (items : List Value) (keys : List Key),
    toKeys? items = some keys ↔ items = Key.toValues keys
  | [], keys => by cases keys <;> simp [toKeys?, Key.toValues]
  | item :: rest, [] => by
    simp only [toKeys?, Key.toValues]
    split <;> simp
  | item :: rest, key :: keys => by
    simp only [toKeys?, Key.toValues, List.cons.injEq,
      ← toKey?_eq_some_iff item, ← toKeys?_eq_some_iff rest]
    split <;> simp_all

end

theorem key_eq_ok_iff {value : Value} {k : Key} : value.key = .ok k ↔ value = k.toValue := by
  rw [← toKey?_eq_some_iff]
  unfold key
  cases value.toKey? <;> simp

theorem toValue_injective : Function.Injective Key.toValue := by
  intro k l h
  have hk := toKey_toValue k
  rw [h, toKey_toValue] at hk
  exact (Option.some.inj hk).symm

theorem keyedEntries_eq_ok_iff {items : List Value} {es : Entries Value} :
    keyedEntries items = .ok es ↔
      List.Forall₂ (fun item e => item.split = .ok (e.1.toValue, e.2)) items es := by
  induction items generalizing es with
  | nil => cases es <;> simp [keyedEntries]
  | cons item rest ih =>
    simp only [keyedEntries, Fault.bind_eq_ok_iff, Fault.pure_eq_ok_iff, key_eq_ok_iff]
    cases es with
    | nil => simp
    | cons e more =>
      obtain ⟨k, v⟩ := e
      simp only [List.forall₂_cons, ← ih]
      constructor
      · rintro ⟨⟨k', v'⟩, hs, l, rfl, others, ho, he⟩
        cases he
        exact ⟨hs, ho⟩
      · rintro ⟨hs, ho⟩
        exact ⟨_, hs, k, rfl, more, ho, rfl⟩

/-- The value is a mapping with these entries, those with repeated keys included. -/
inductive Lists : Value → Entries Value → Prop
  | map (es : Entries Value) : Lists (.map es) es
  | frozen (es : Entries Value) : Lists (.frozen es) es
  | pairs {items : List Value} {es : Entries Value} (h : keyedEntries items = .ok es) :
    Lists (.pairs items) es

theorem lists_iff {value : Value} {es : Entries Value} :
    value.Lists es ↔ ∃ items, value.items? = some items ∧ keyedEntries items = .ok es := by
  constructor
  · rintro (_ | _ | h)
    · exact ⟨_, rfl, keyedEntries_entry es⟩
    · exact ⟨_, rfl, keyedEntries_entry es⟩
    · exact ⟨_, rfl, h⟩
  · rintro ⟨items, hi, hk⟩
    rcases value with s | _ | _ | entries | entries | entries
    · rcases s with _ | _ | _ | _ | _ <;> cases hi
    · cases hi
    · cases hi
    · cases hi
      rw [keyedEntries_entry] at hk
      cases hk
      exact .map es
    · cases hi
      rw [keyedEntries_entry] at hk
      cases hk
      exact .frozen es
    · cases hi
      exact .pairs hk

theorem Lists.unique {value : Value} {es fs : Entries Value} (h : value.Lists es)
    (h' : value.Lists fs) : es = fs := by
  obtain ⟨items, hi, hk⟩ := lists_iff.mp h
  obtain ⟨items', hi', hk'⟩ := lists_iff.mp h'
  obtain rfl := Option.some.inj (hi.symm.trans hi')
  exact Except.ok.inj (hk.symm.trans hk')

theorem Lists.hasEntries {value : Value} {es : Entries Value} (h : value.Lists es) :
    value.hasEntries = true := by
  cases h <;> rfl

/-- The value is a mapping that can be read by name, with these entries. -/
inductive Maps : Value → Entries Value → Prop
  | map (es : Entries Value) : Maps (.map es) es
  | frozen (es : Entries Value) : Maps (.frozen es) es
  | empty : Maps (.pairs []) []

theorem Maps.lists {value : Value} {es : Entries Value} (h : value.Maps es) : value.Lists es := by
  cases h with
  | map => exact .map es
  | frozen => exact .frozen es
  | empty => exact .pairs rfl

theorem Maps.entries?_eq {value : Value} {es : Entries Value} (h : value.Maps es) :
    value.entries? = .ok (some es) := by
  cases h <;> rfl

/-- The value can be read as one mapping, or is seen to be none. -/
def Opens (value : Value) : Prop := ∃ found, value.entries? = .ok found

theorem Maps.opens {value : Value} {es : Entries Value} (h : value.Maps es) : value.Opens :=
  ⟨_, h.entries?_eq⟩

theorem entries?_eq_ok_none_iff {value : Value} :
    value.entries? = .ok none ↔ value.hasEntries = false := by
  cases value <;> simp [entries?, hasEntries, Fault.map_eq_ok_iff]

/-- The value is a sequence of these items. -/
inductive Items : Value → List Value → Prop
  | list (items : List Value) : Items (.list items) items
  | tuple (items : List Value) : Items (.tuple items) items

/-! A pair list that can be read by position has no text for a key. -/

theorem place_str (length : Nat) (name : String) :
    place length (.str name) = .error .notAPosition := rfl

/-- Each item names a position by its key. -/
theorem exists_placed_of_positions {items : List Value} {ns : Entries Nat}
    (h : positions items = .ok ns) : ∃ placed, ns = Entries.ofList placed ∧
      List.Forall₂ (fun item e => ¬ e.1.IsText ∧ ∃ v, item.split = .ok (e.1.toValue, v))
        items placed := by
  simp only [positions, splitAll, Fault.bind_eq_ok_iff, Fault.pure_eq_ok_iff,
    Fault.mapM_eq_ok_iff, key_eq_ok_iff] at h
  obtain ⟨split, hs, placed, hp, rfl⟩ := h
  refine ⟨placed, rfl, ?_⟩
  generalize items.length = length at hp
  induction hs generalizing placed with
  | nil =>
    cases hp
    exact .nil
  | @cons item pair rest more hi _ ih =>
    rcases hp with _ | @⟨_, e, _, others, ⟨n, hn, k, hk, he⟩, ho⟩
    subst he
    refine .cons ⟨?_, pair.2, by rw [hi, ← hk]⟩ (ih others ho)
    rintro ⟨name, rfl⟩
    rw [hk] at hn
    exact absurd hn (by simp [Key.toValue, place_str])

theorem entries?_pairs {items : List Value} {es : Entries Value}
    (h : entries? (.pairs items) = .ok (some es)) :
    (∀ e ∈ es, ¬ e.1.IsText) ∧ (es = [] → items = []) ∧
      ∀ item ∈ items, ∃ k v, ¬ Key.IsText k ∧ item.split = .ok (k.toValue, v) := by
  simp only [entries?, byPosition, Fault.bind_eq_ok_iff, Fault.pure_eq_ok_iff,
    Option.some.injEq] at h
  obtain ⟨_, ⟨ns, hns, rfl⟩, rfl⟩ := h
  obtain ⟨placed, rfl, hp⟩ := exists_placed_of_positions hns
  refine ⟨?_, ?_, ?_⟩
  · intro e he
    obtain ⟨n, hn, rfl⟩ := List.mem_map.mp he
    obtain ⟨item, hi, hk⟩ := List.mem_map.mp (Entries.sides_of_mem_ofList hn).1
    obtain ⟨_, -, ht, -⟩ := hp.exists_of_mem_right hi
    rwa [← hk]
  · intro he
    have hn : Entries.ofList placed = [] := by simpa [Entries.mapValues] using he
    have := Entries.eq_nil_of_ofList_eq_nil hn
    subst this
    cases hp
    rfl
  · intro item hi
    obtain ⟨e, -, ht, v, hs⟩ := hp.exists_of_mem_left hi
    exact ⟨e.1, v, ht, hs⟩

theorem entries?_eq_ok_some_iff {value : Value} {es : Entries Value} :
    value.entries? = .ok (some es) ↔ value = .map es ∨ value = .frozen es ∨
      ∃ items, value = .pairs items ∧ entries? (.pairs items) = .ok (some es) := by
  rcases value with _ | _ | _ | _ | _ | _ <;> simp [entries?]

theorem maps_of_mem_text {value : Value} {es : Entries Value} {e : Key × Value}
    (h : value.entries? = .ok (some es)) (he : e ∈ es) (ht : e.1.IsText) : value.Maps es := by
  rcases entries?_eq_ok_some_iff.mp h with rfl | rfl | ⟨items, rfl, hp⟩
  · exact .map es
  · exact .frozen es
  · exact absurd ht ((entries?_pairs hp).1 e he)

theorem maps_of_texts {value : Value} {es : Entries Value} (h : value.entries? = .ok (some es))
    (ht : ∀ e ∈ es, e.1.IsText) : value.Maps es := by
  rcases entries?_eq_ok_some_iff.mp h with rfl | rfl | ⟨items, rfl, hp⟩
  · exact .map es
  · exact .frozen es
  · obtain ⟨hn, hnil, -⟩ := entries?_pairs hp
    have : es = [] := List.eq_nil_iff_forall_not_mem.mpr fun e he => hn e he (ht e he)
    subst this
    obtain rfl := hnil rfl
    exact .empty

end Value

end ServiceModel
