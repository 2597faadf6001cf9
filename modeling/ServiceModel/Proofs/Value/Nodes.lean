import ServiceModel.Value.Mapping

/-!
# The nodes of a value tree

An induction principle for value trees, and properties that hold of a tree when a test holds at
each of its nodes: the plain form, the fixed form, the absence of pair lists, and the rules that
every decoded tree keeps. The keys of a mapping are no nodes.
-/
namespace ServiceModel

namespace Value

theorem induction_toValue {P : Value → Prop} (scalar : ∀ s, P (.scalar s))
    (tuple : ∀ items, (∀ item ∈ items, P item) → P (.tuple items)) (key : Key) : P key.toValue := by
  refine Key.rec (motive_1 := fun key => P key.toValue)
    (motive_2 := fun keys => ∀ item ∈ Key.toValues keys, P item) scalar ?_ ?_ ?_ key
  · intro keys ih
    exact tuple _ ih
  · intro item h
    cases h
  · intro key rest ih ihs item h
    rcases List.mem_cons.mp h with rfl | h
    · exact ih
    · exact ihs item h

/-- What follows the key of an entry is a value of its own, or stands below the entry. -/
theorem split_induction {P : Value → Prop} (scalar : ∀ s, P (.scalar s))
    (tuple : ∀ items, (∀ item ∈ items, P item) → P (.tuple items)) {item k v : Value}
    (below : ∀ items, item = .list items ∨ item = .tuple items ∨ item = .pairs items →
      ∀ part ∈ items, P part)
    (h : item.split = .ok (k, v)) : P v := by
  unfold split at h
  split at h
  · rename_i key value hp
    obtain ⟨-, rfl⟩ : key = k ∧ value = v := by simpa using h
    have mem : ∀ {items}, items = [key, value] → value ∈ items := by rintro _ rfl; simp
    rcases item with (_ | _ | _ | _ | s) | items | items | entries | entries | items
    · cases hp
    · cases hp
    · cases hp
    · cases hp
    · have hv : value ∈ s.toList.map fun c => Value.str c.toString :=
        mem (by simpa [parts] using hp)
      obtain ⟨c, -, rfl⟩ := List.mem_map.mp hv
      exact scalar _
    · exact below items (.inl rfl) value (mem (by simpa [parts] using hp))
    · exact below items (.inr (.inl rfl)) value (mem (by simpa [parts] using hp))
    · have hv : value ∈ entries.map fun e => e.1.toValue := mem (by simpa [parts] using hp)
      obtain ⟨e, -, rfl⟩ := List.mem_map.mp hv
      exact induction_toValue scalar tuple e.1
    · have hv : value ∈ entries.map fun e => e.1.toValue := mem (by simpa [parts] using hp)
      obtain ⟨e, -, rfl⟩ := List.mem_map.mp hv
      exact induction_toValue scalar tuple e.1
    · exact below items (.inr (.inr rfl)) value (mem (by simpa [parts] using hp))
  · cases h
  · cases h

/-- Induction on a tree. Of a pair list the entries can be used, and also their values. -/
@[elab_as_elim]
theorem induction {P : Value → Prop} (scalar : ∀ s, P (.scalar s))
    (list : ∀ items, (∀ item ∈ items, P item) → P (.list items))
    (tuple : ∀ items, (∀ item ∈ items, P item) → P (.tuple items))
    (map : ∀ entries : List (Key × Value), (∀ e ∈ entries, P e.2) → P (.map entries))
    (frozen : ∀ entries : List (Key × Value), (∀ e ∈ entries, P e.2) → P (.frozen entries))
    (pairs : ∀ items, (∀ item ∈ items, P item) →
      (∀ item ∈ items, ∀ k v, item.split = .ok (k, v) → P v) → P (.pairs items))
    (value : Value) : P value := by
  have unsplit : ∀ {item : Value} {l : List Value}, (∀ part ∈ l, P part) →
      (∀ items, item = .list items ∨ item = .tuple items ∨ item = .pairs items → items = l) →
      ∀ k v, item.split = .ok (k, v) → P v := by
    intro item l ih hitems k v h
    exact split_induction scalar tuple (fun items hi => hitems items hi ▸ ih) h
  -- What an entry splits into stands below it, so the recursion carries it along with each value.
  refine (Value.rec (motive_1 := fun v => P v ∧ ∀ k w, v.split = .ok (k, w) → P w)
    (motive_2 := fun items => ∀ item ∈ items, P item ∧ ∀ k w, item.split = .ok (k, w) → P w)
    (motive_3 := fun entries => ∀ e ∈ entries, P e.2) (motive_4 := fun e => P e.2)
    ?_ ?_ ?_ ?_ ?_ ?_ ?_ ?_ ?_ ?_ ?_ value).1
  · intro s
    exact ⟨scalar s, unsplit (l := []) (by simp) (by simp)⟩
  · intro items ih
    exact ⟨list items fun i hi => (ih i hi).1,
      unsplit (l := items) (fun i hi => (ih i hi).1) (by simp +contextual)⟩
  · intro items ih
    exact ⟨tuple items fun i hi => (ih i hi).1,
      unsplit (l := items) (fun i hi => (ih i hi).1) (by simp +contextual)⟩
  · intro entries ih
    exact ⟨map entries ih, unsplit (l := []) (by simp) (by simp)⟩
  · intro entries ih
    exact ⟨frozen entries ih, unsplit (l := []) (by simp) (by simp)⟩
  · intro items ih
    exact ⟨pairs items (fun i hi => (ih i hi).1) fun i hi => (ih i hi).2,
      unsplit (l := items) (fun i hi => (ih i hi).1) (by simp +contextual)⟩
  · simp
  · intro item rest ih ihs i hi
    rcases List.mem_cons.mp hi with rfl | hi
    · exact ih
    · exact ihs i hi
  · simp
  · intro e rest ih ihs e' he
    rcases List.mem_cons.mp he with rfl | he
    · exact ih
    · exact ihs e' he
  · intro k v ih
    exact ih.1

mutual

def everyNode (test : Value → Bool) : Value → Bool
  | .scalar s => test (.scalar s)
  | .list items => test (.list items) && everyNodeOf test items
  | .tuple items => test (.tuple items) && everyNodeOf test items
  | .map entries => test (.map entries) && everyNodeUnder test entries
  | .frozen entries => test (.frozen entries) && everyNodeUnder test entries
  | .pairs items => test (.pairs items) && everyNodeOf test items

def everyNodeOf (test : Value → Bool) : List Value → Bool
  | [] => true
  | item :: rest => everyNode test item && everyNodeOf test rest

def everyNodeUnder (test : Value → Bool) : List (Key × Value) → Bool
  | [] => true
  | (_, value) :: rest => everyNode test value && everyNodeUnder test rest

end

section
variable {test : Value → Bool}

theorem everyNodeOf_iff (items : List Value) :
    everyNodeOf test items = true ↔ ∀ item ∈ items, everyNode test item = true := by
  induction items with
  | nil => simp [everyNodeOf]
  | cons item rest ih => simp [everyNodeOf, ih]

theorem everyNodeUnder_iff (entries : List (Key × Value)) :
    everyNodeUnder test entries = true ↔ ∀ e ∈ entries, everyNode test e.2 = true := by
  induction entries with
  | nil => simp [everyNodeUnder]
  | cons e rest ih =>
    obtain ⟨k, v⟩ := e
    simp [everyNodeUnder, ih]

theorem everyNode_list_iff (items : List Value) : everyNode test (.list items) = true ↔
    test (.list items) = true ∧ ∀ item ∈ items, everyNode test item = true := by
  simp [everyNode, everyNodeOf_iff]

theorem everyNode_tuple_iff (items : List Value) : everyNode test (.tuple items) = true ↔
    test (.tuple items) = true ∧ ∀ item ∈ items, everyNode test item = true := by
  simp [everyNode, everyNodeOf_iff]

theorem everyNode_map_iff (entries : List (Key × Value)) :
    everyNode test (.map entries) = true ↔
      test (.map entries) = true ∧ ∀ e ∈ entries, everyNode test e.2 = true := by
  simp [everyNode, everyNodeUnder_iff]

theorem everyNode_frozen_iff (entries : List (Key × Value)) :
    everyNode test (.frozen entries) = true ↔
      test (.frozen entries) = true ∧ ∀ e ∈ entries, everyNode test e.2 = true := by
  simp [everyNode, everyNodeUnder_iff]

theorem everyNode_pairs_iff (items : List Value) : everyNode test (.pairs items) = true ↔
    test (.pairs items) = true ∧ ∀ item ∈ items, everyNode test item = true := by
  simp [everyNode, everyNodeOf_iff]

/-- A test that no scalar and no tuple fails holds at what an entry splits into. -/
theorem everyNode_of_split (scalar : ∀ s, test (.scalar s) = true)
    (tuple : ∀ items, test (.tuple items) = true) {item k v : Value}
    (h : everyNode test item = true) (hs : item.split = .ok (k, v)) : everyNode test v = true := by
  refine split_induction (P := fun v => everyNode test v = true) scalar
    (fun items hi => (everyNode_tuple_iff items).mpr ⟨tuple items, hi⟩) ?_ hs
  rintro items (rfl | rfl | rfl)
  · exact ((everyNode_list_iff items).mp h).2
  · exact ((everyNode_tuple_iff items).mp h).2
  · exact ((everyNode_pairs_iff items).mp h).2

theorem everyNode_mono {other : Value → Bool} (h : ∀ v, test v = true → other v = true) {v : Value}
    (hv : everyNode test v = true) : everyNode other v = true := by
  induction v using Value.induction with
  | scalar s => exact h _ hv
  | list items ih =>
    obtain ⟨ht, hi⟩ := (everyNode_list_iff items).mp hv
    exact (everyNode_list_iff items).mpr ⟨h _ ht, fun item hm => ih item hm (hi item hm)⟩
  | tuple items ih =>
    obtain ⟨ht, hi⟩ := (everyNode_tuple_iff items).mp hv
    exact (everyNode_tuple_iff items).mpr ⟨h _ ht, fun item hm => ih item hm (hi item hm)⟩
  | map es ih =>
    obtain ⟨ht, he⟩ := (everyNode_map_iff es).mp hv
    exact (everyNode_map_iff es).mpr ⟨h _ ht, fun e hm => ih e hm (he e hm)⟩
  | frozen es ih =>
    obtain ⟨ht, he⟩ := (everyNode_frozen_iff es).mp hv
    exact (everyNode_frozen_iff es).mpr ⟨h _ ht, fun e hm => ih e hm (he e hm)⟩
  | pairs items ih _ =>
    obtain ⟨ht, hi⟩ := (everyNode_pairs_iff items).mp hv
    exact (everyNode_pairs_iff items).mpr ⟨h _ ht, fun item hm => ih item hm (hi item hm)⟩

end

/-- Of mappings only maps, of sequences only lists. -/
def isPlain : Value → Bool := everyNode fun
  | .scalar _ | .list _ | .map _ => true
  | .tuple _ | .frozen _ | .pairs _ => false

/-- Of mappings only frozen ones, of sequences only tuples: nothing in the tree can change. -/
def isFixed : Value → Bool := everyNode fun
  | .scalar _ | .tuple _ | .frozen _ => true
  | .list _ | .map _ | .pairs _ => false

theorem isPlain_list_iff {items : List Value} :
    (Value.list items).isPlain = true ↔ ∀ item ∈ items, item.isPlain = true := by
  simp [isPlain, everyNode_list_iff]

theorem isPlain_map_iff {entries : List (Key × Value)} :
    (Value.map entries).isPlain = true ↔ ∀ e ∈ entries, e.2.isPlain = true := by
  simp [isPlain, everyNode_map_iff]

theorem isFixed_tuple_iff {items : List Value} :
    (Value.tuple items).isFixed = true ↔ ∀ item ∈ items, item.isFixed = true := by
  simp [isFixed, everyNode_tuple_iff]

theorem isFixed_frozen_iff {entries : List (Key × Value)} :
    (Value.frozen entries).isFixed = true ↔ ∀ e ∈ entries, e.2.isFixed = true := by
  simp [isFixed, everyNode_frozen_iff]

def isPairFree : Value → Bool := everyNode fun
  | .pairs _ => false
  | _ => true

/-- What holds of every decoded tree: a mapping repeats no key unless it is a pair list, and the
items of a pair list are entries, each with a key and a value. -/
def isWellFormed : Value → Bool := everyNode fun
  | .map entries | .frozen entries => Entries.distinct (entries.map (·.1))
  | .pairs items => (keyedEntries items).isOk
  | .scalar _ | .list _ | .tuple _ => true

end Value

end ServiceModel
