import ServiceModel.Proofs.Value.Listing
import ServiceModel.Proofs.Value.Nodes
import ServiceModel.Value.Normal

/-!
# Laws of the plain form

The plain form exists unless a pair list holds something that is no entry. It is plain, and its own
plain form.
-/
namespace ServiceModel

namespace Value

def HasPlain (value plain : Value) : Prop := value.toPlain = .ok plain

theorem HasPlain.unique {v p q : Value} (h : v.HasPlain p) (h' : v.HasPlain q) : p = q :=
  Except.ok.inj (h.symm.trans h')

theorem toPlainAll_eq_ok_iff {items ps : List Value} :
    toPlainAll items = .ok ps ↔ List.Forall₂ HasPlain items ps := by
  induction items generalizing ps with
  | nil => cases ps <;> simp [toPlainAll]
  | cons v rest ih =>
    cases ps <;> simp [toPlainAll, HasPlain, Fault.bind_eq_ok_iff, Fault.map_eq_ok_iff, ih]

theorem toPlainEntries_eq_ok_iff {es ps : Entries Value} :
    toPlainEntries es = .ok ps ↔ Entries.Pointwise HasPlain es ps := by
  induction es generalizing ps with
  | nil => cases ps <;> simp [toPlainEntries, Entries.Pointwise.nil_left_iff]
  | cons e rest ih =>
    obtain ⟨k, v⟩ := e
    cases ps with
    | nil =>
      simp [toPlainEntries, Fault.bind_eq_ok_iff, Fault.map_eq_ok_iff,
        Entries.Pointwise.nil_right_iff]
    | cons q more =>
      obtain ⟨l, p⟩ := q
      simp [toPlainEntries, HasPlain, Fault.bind_eq_ok_iff, Fault.map_eq_ok_iff, ih,
        Entries.Pointwise.cons_iff, and_assoc, and_left_comm, @eq_comm Key l]

mutual

theorem toPlain_toValue : ∀ key : Key, key.toValue.HasPlain (plainKey key)
  | .scalar _ => rfl
  | .tuple keys => by
    simp [HasPlain, Key.toValue, toPlain, toPlainAll_toValues keys, plainKey, Functor.map,
      Except.map]

theorem toPlainAll_toValues : ∀ keys : List Key,
    toPlainAll (Key.toValues keys) = .ok (plainKey.plainKeys keys)
  | [] => rfl
  | key :: rest => by
    have hk : key.toValue.toPlain = .ok (plainKey key) := toPlain_toValue key
    simp [Key.toValues, toPlainAll, hk, toPlainAll_toValues rest, plainKey.plainKeys, bind,
      Except.bind, pure, Except.pure]

end

/-- The plain form of an entry belongs to the value that the entry splits into. -/
theorem toPlainPair_eq_ok_iff {item : Value} {k : Key} {p : Value} :
    toPlainPair item = .ok (k, p) ↔ ∃ v, item.split = .ok (k.toValue, v) ∧ v.HasPlain p := by
  have scalars : ∀ (l : Key) (m : Key), (l = k ∧ plainKey m = p) ↔
      ∃ v, (l.toValue = k.toValue ∧ m.toValue = v) ∧ v.HasPlain p := by
    intro l m
    rw [toValue_injective.eq_iff]
    constructor
    · rintro ⟨rfl, rfl⟩
      exact ⟨_, ⟨rfl, rfl⟩, toPlain_toValue m⟩
    · rintro ⟨_, ⟨rfl, rfl⟩, hp⟩
      exact ⟨rfl, (toPlain_toValue m).unique hp⟩
  rcases item with s | items | items | entries | entries | items
  · rcases s with _ | _ | _ | _ | t
    · simp [toPlainPair, split, parts]
    · simp [toPlainPair, split, parts]
    · simp [toPlainPair, split, parts]
    · simp [toPlainPair, split, parts]
    · rcases h : t.toList with _ | ⟨a, _ | ⟨b, _ | ⟨c, rest⟩⟩⟩
      · simp [toPlainPair, split, parts, h]
      · simp [toPlainPair, split, parts, h]
      · simpa [toPlainPair, split, parts, h, plainKey, Key.toValue] using
          scalars (.str (String.singleton a)) (.str (String.singleton b))
      · simp [toPlainPair, split, parts, h]
  · rcases items with _ | ⟨a, _ | ⟨b, _ | ⟨c, rest⟩⟩⟩ <;>
      simp [toPlainPair, split, parts, Fault.bind_eq_ok_iff, Fault.map_eq_ok_iff, key_eq_ok_iff,
        HasPlain, and_comm]
  · rcases items with _ | ⟨a, _ | ⟨b, _ | ⟨c, rest⟩⟩⟩ <;>
      simp [toPlainPair, split, parts, Fault.bind_eq_ok_iff, Fault.map_eq_ok_iff, key_eq_ok_iff,
        HasPlain, and_comm]
  · rcases entries with _ | ⟨a, _ | ⟨b, _ | ⟨c, rest⟩⟩⟩
    · simp [toPlainPair, split, parts]
    · simp [toPlainPair, split, parts]
    · simpa [toPlainPair, split, parts] using scalars a.1 b.1
    · simp [toPlainPair, split, parts]
  · rcases entries with _ | ⟨a, _ | ⟨b, _ | ⟨c, rest⟩⟩⟩
    · simp [toPlainPair, split, parts]
    · simp [toPlainPair, split, parts]
    · simpa [toPlainPair, split, parts] using scalars a.1 b.1
    · simp [toPlainPair, split, parts]
  · rcases items with _ | ⟨a, _ | ⟨b, _ | ⟨c, rest⟩⟩⟩ <;>
      simp [toPlainPair, split, parts, Fault.bind_eq_ok_iff, Fault.map_eq_ok_iff, key_eq_ok_iff,
        HasPlain, and_comm]

theorem toPlainPairs_eq_ok_iff {items : List Value} {ps : Entries Value} :
    toPlainPairs items = .ok ps ↔
      ∃ es, keyedEntries items = .ok es ∧ Entries.Pointwise HasPlain es ps := by
  have each : toPlainPairs items = .ok ps ↔
      List.Forall₂ (fun item p => toPlainPair item = .ok p) items ps := by
    induction items generalizing ps with
    | nil => cases ps <;> simp [toPlainPairs]
    | cons item rest ih =>
      cases ps <;> simp [toPlainPairs, Fault.bind_eq_ok_iff, Fault.map_eq_ok_iff, ih]
  rw [each]
  clear each
  constructor
  · intro h
    induction h with
    | nil => exact ⟨[], rfl, .nil⟩
    | @cons item p rest more hp _ ih =>
      obtain ⟨es, he, hs⟩ := ih
      obtain ⟨v, hv, hvp⟩ := toPlainPair_eq_ok_iff.mp hp
      rw [keyedEntries_eq_ok_iff] at he
      exact ⟨(p.1, v) :: es, keyedEntries_eq_ok_iff.mpr (.cons hv he), .cons ⟨rfl, hvp⟩ hs⟩
  · rintro ⟨es, he, hs⟩
    refine ((keyedEntries_eq_ok_iff.mp he).comp hs).imp ?_
    rintro item ⟨k, p⟩ ⟨e, hsplit, hk, hp⟩
    exact toPlainPair_eq_ok_iff.mpr ⟨e.2, by rw [hsplit, hk], hp⟩

theorem hasPlain_list_iff {items : List Value} {p : Value} :
    HasPlain (.list items) p ↔ ∃ ps, List.Forall₂ HasPlain items ps ∧ p = .list ps := by
  simp [HasPlain, toPlain, Fault.map_eq_ok_iff, toPlainAll_eq_ok_iff]

theorem hasPlain_tuple_iff {items : List Value} {p : Value} :
    HasPlain (.tuple items) p ↔ ∃ ps, List.Forall₂ HasPlain items ps ∧ p = .list ps := by
  simp [HasPlain, toPlain, Fault.map_eq_ok_iff, toPlainAll_eq_ok_iff]

theorem hasPlain_map_iff {es : Entries Value} {p : Value} :
    HasPlain (.map es) p ↔ ∃ ps, Entries.Pointwise HasPlain es ps ∧ p = .map ps := by
  simp [HasPlain, toPlain, Fault.map_eq_ok_iff, toPlainEntries_eq_ok_iff]

theorem hasPlain_frozen_iff {es : Entries Value} {p : Value} :
    HasPlain (.frozen es) p ↔ ∃ ps, Entries.Pointwise HasPlain es ps ∧ p = .map ps := by
  simp [HasPlain, toPlain, Fault.map_eq_ok_iff, toPlainEntries_eq_ok_iff]

theorem hasPlain_pairs_iff {items : List Value} {p : Value} :
    HasPlain (.pairs items) p ↔ ∃ es ps, keyedEntries items = .ok es ∧
      Entries.Pointwise HasPlain es ps ∧ p = .map (Entries.ofList ps) := by
  simp only [HasPlain, toPlain, Fault.map_eq_ok_iff, toPlainPairs_eq_ok_iff]
  constructor
  · rintro ⟨ps, ⟨es, he, hs⟩, rfl⟩
    exact ⟨es, ps, he, hs, rfl⟩
  · rintro ⟨es, ps, he, hs, rfl⟩
    exact ⟨ps, ⟨es, he, hs⟩, rfl⟩

theorem hasPlain_scalar_iff {v : Value} {s : Scalar} : v.HasPlain (.scalar s) ↔ v = .scalar s := by
  cases v <;> simp [HasPlain, toPlain, Fault.map_eq_ok_iff]

theorem HasPlain.hasEntries {v : Value} {ps : Entries Value} (h : v.HasPlain (.map ps)) :
    v.hasEntries = true := by
  cases v <;> simp_all [HasPlain, toPlain, Fault.map_eq_ok_iff, Value.hasEntries]

theorem HasPlain.items {v : Value} {ps : List Value} (h : v.HasPlain (.list ps)) :
    ∃ items, v.Items items ∧ List.Forall₂ HasPlain items ps := by
  cases v with
  | list items =>
    obtain ⟨qs, hq, he⟩ := hasPlain_list_iff.mp h
    cases he
    exact ⟨items, .list items, hq⟩
  | tuple items =>
    obtain ⟨qs, hq, he⟩ := hasPlain_tuple_iff.mp h
    cases he
    exact ⟨items, .tuple items, hq⟩
  | scalar s => cases h
  | map es => simp [hasPlain_map_iff] at h
  | frozen es => simp [hasPlain_frozen_iff] at h
  | pairs items => simp [hasPlain_pairs_iff] at h

theorem Items.hasPlain_iff {v p : Value} {items : List Value} (h : v.Items items) :
    v.HasPlain p ↔ ∃ ps, List.Forall₂ HasPlain items ps ∧ p = .list ps := by
  cases h with
  | list => exact hasPlain_list_iff
  | tuple => exact hasPlain_tuple_iff

/-- A mapping is made plain entry by entry, and then the entries are written one after another.
Where it repeats no key, nothing is overwritten by that. -/
theorem Lists.hasPlain_ofList_iff {value p : Value} {es : Entries Value} (h : value.Lists es)
    (hd : value.Maps es → Entries.distinct (es.map (·.1)) = true) :
    value.HasPlain p ↔ ∃ ps, Entries.Pointwise HasPlain es ps ∧ p = .map (Entries.ofList ps) := by
  have written (hm : value.Maps es) {ps : Entries Value} (hp : Entries.Pointwise HasPlain es ps) :
      Entries.ofList ps = ps := Entries.ofList_of_distinct ps (hp.keys ▸ hd hm)
  cases h with
  | map =>
    rw [hasPlain_map_iff]
    exact exists_congr fun ps => and_congr_right fun hp => by rw [written (.map es) hp]
  | frozen =>
    rw [hasPlain_frozen_iff]
    exact exists_congr fun ps => and_congr_right fun hp => by rw [written (.frozen es) hp]
  | pairs h =>
    rw [hasPlain_pairs_iff]
    constructor
    · rintro ⟨es', ps, he, hp, rfl⟩
      obtain rfl : es' = es := Except.ok.inj (he.symm.trans h)
      exact ⟨ps, hp, rfl⟩
    · rintro ⟨ps, hp, rfl⟩
      exact ⟨es, ps, h, hp, rfl⟩

/-- Where no key repeats, the plain form of a mapping has the plain forms of its entries. -/
theorem Lists.hasPlain_iff {value p : Value} {es : Entries Value} (h : value.Lists es)
    (hd : Entries.distinct (es.map (·.1)) = true) :
    value.HasPlain p ↔ ∃ ps, Entries.Pointwise HasPlain es ps ∧ p = .map ps := by
  rw [h.hasPlain_ofList_iff fun _ => hd]
  exact exists_congr fun ps => and_congr_right fun hp => by
    rw [Entries.ofList_of_distinct ps (hp.keys ▸ hd)]

theorem Maps.hasPlain_iff {value p : Value} {es : Entries Value} (h : value.Maps es) :
    value.HasPlain p ↔ ∃ ps, Entries.Pointwise HasPlain es ps ∧ p = .map ps := by
  cases h with
  | map => exact hasPlain_map_iff
  | frozen => exact hasPlain_frozen_iff
  | empty => exact (show Lists (.pairs []) [] from .pairs rfl).hasPlain_iff rfl

theorem plain_field_of_text {es ps : Entries Value} (h : Entries.Pointwise HasPlain es ps)
    {name text : String} (hf : es.field? name = some (.str text)) :
    ps.field? name = some (.str text) := by
  obtain ⟨p, hp, hplain⟩ := h.field?_of_left hf
  rw [hp, ← Except.ok.inj hplain]

/-- A mapping whose plain form has a text for a key is no pair list. -/
theorem maps_of_plain_text {value : Value} {es ps : Entries Value}
    (h : value.entries? = .ok (some es)) (hp : value.HasPlain (.map ps)) {e : Key × Value}
    (he : e ∈ ps) (ht : e.1.IsText) : value.Maps es := by
  rcases entries?_eq_ok_some_iff.mp h with rfl | rfl | ⟨items, rfl, hi⟩
  · exact .map es
  · exact .frozen es
  · obtain ⟨-, -, hn⟩ := entries?_pairs hi
    obtain ⟨ls, qs, hl, hq, hps⟩ := hasPlain_pairs_iff.mp hp
    cases hps
    obtain ⟨q, hq', hk⟩ := List.mem_map.mp (Entries.sides_of_mem_ofList he).1
    obtain ⟨l, hl', hkl, -⟩ := hq.exists_of_mem_right hq'
    obtain ⟨item, hi', hs⟩ := (keyedEntries_eq_ok_iff.mp hl).exists_of_mem_right hl'
    obtain ⟨k, v, hkt, hs'⟩ := hn item hi'
    have same : l.1.toValue = k.toValue := congrArg Prod.fst (Except.ok.inj (hs.symm.trans hs'))
    rw [← toValue_injective same, hkl, hk] at hkt
    exact absurd ht hkt

theorem maps_of_plain_field {value p : Value} {es ps : Entries Value} {name : String}
    (h : value.entries? = .ok (some es)) (hp : value.HasPlain (.map ps))
    (hf : ps.field? name = some p) : value.Maps es ∧ Entries.Pointwise HasPlain es ps := by
  have hm := maps_of_plain_text h hp (Entries.mem_of_field? hf) ⟨name, rfl⟩
  obtain ⟨qs, hq, he⟩ := hm.hasPlain_iff.mp hp
  cases he
  exact ⟨hm, hq⟩

/-! The plain form. -/

theorem hasPlain_self {p : Value} (h : p.isPlain = true) : p.HasPlain p := by
  induction p using Value.induction with
  | scalar s => rfl
  | list items ih =>
    have hi := isPlain_list_iff.mp h
    exact hasPlain_list_iff.mpr ⟨items, List.forall₂_same.mpr fun v hv => ih v hv (hi v hv), rfl⟩
  | tuple items ih => simp [isPlain, everyNode] at h
  | map es ih =>
    have he := isPlain_map_iff.mp h
    exact hasPlain_map_iff.mpr
      ⟨es, List.forall₂_same.mpr fun e hm => ⟨rfl, ih e hm (he e hm)⟩, rfl⟩
  | frozen es ih => simp [isPlain, everyNode] at h
  | pairs items _ _ => simp [isPlain, everyNode] at h

theorem isPlain_of_hasPlain {v p : Value} (h : v.HasPlain p) : p.isPlain = true := by
  induction v using Value.induction generalizing p with
  | scalar s =>
    cases h
    rfl
  | list items ih =>
    obtain ⟨ps, hp, rfl⟩ := hasPlain_list_iff.mp h
    refine isPlain_list_iff.mpr fun p hm => ?_
    obtain ⟨v, hv, hvp⟩ := hp.exists_of_mem_right hm
    exact ih v hv hvp
  | tuple items ih =>
    obtain ⟨ps, hp, rfl⟩ := hasPlain_tuple_iff.mp h
    refine isPlain_list_iff.mpr fun p hm => ?_
    obtain ⟨v, hv, hvp⟩ := hp.exists_of_mem_right hm
    exact ih v hv hvp
  | map es ih =>
    obtain ⟨ps, hp, rfl⟩ := hasPlain_map_iff.mp h
    refine isPlain_map_iff.mpr fun p hm => ?_
    obtain ⟨e, he, -, hep⟩ := hp.exists_of_mem_right hm
    exact ih e he hep
  | frozen es ih =>
    obtain ⟨ps, hp, rfl⟩ := hasPlain_frozen_iff.mp h
    refine isPlain_map_iff.mpr fun p hm => ?_
    obtain ⟨e, he, -, hep⟩ := hp.exists_of_mem_right hm
    exact ih e he hep
  | pairs items _ ih =>
    obtain ⟨es, ps, he, hp, rfl⟩ := hasPlain_pairs_iff.mp h
    refine isPlain_map_iff.mpr fun p hm => ?_
    obtain ⟨q, hq, hv⟩ := List.mem_map.mp (Entries.sides_of_mem_ofList hm).2
    obtain ⟨e, hme, -, hep⟩ := hp.exists_of_mem_right hq
    obtain ⟨item, hi, hs⟩ := (keyedEntries_eq_ok_iff.mp he).exists_of_mem_right hme
    exact ih item hi _ _ hs (hv ▸ hep)

/-- The plain form exists if the items of every pair list are entries. -/
theorem exists_hasPlain {test : Value → Bool} (scalar : ∀ s, test (.scalar s) = true)
    (tuple : ∀ items, test (.tuple items) = true)
    (keyed : ∀ items, test (.pairs items) = true → ∃ es, keyedEntries items = .ok es) {v : Value}
    (h : everyNode test v = true) : ∃ p, v.HasPlain p := by
  induction v using Value.induction with
  | scalar s => exact ⟨_, rfl⟩
  | list items ih =>
    have hi := ((everyNode_list_iff items).mp h).2
    obtain ⟨ps, hp⟩ := List.Forall₂.of_forall_exists fun v hv => ih v hv (hi v hv)
    exact ⟨_, hasPlain_list_iff.mpr ⟨ps, hp, rfl⟩⟩
  | tuple items ih =>
    have hi := ((everyNode_tuple_iff items).mp h).2
    obtain ⟨ps, hp⟩ := List.Forall₂.of_forall_exists fun v hv => ih v hv (hi v hv)
    exact ⟨_, hasPlain_tuple_iff.mpr ⟨ps, hp, rfl⟩⟩
  | map es ih =>
    have he := ((everyNode_map_iff es).mp h).2
    obtain ⟨ps, hp⟩ := Entries.Pointwise.of_forall_exists fun e hm => ih e hm (he e hm)
    exact ⟨_, hasPlain_map_iff.mpr ⟨ps, hp, rfl⟩⟩
  | frozen es ih =>
    have he := ((everyNode_frozen_iff es).mp h).2
    obtain ⟨ps, hp⟩ := Entries.Pointwise.of_forall_exists fun e hm => ih e hm (he e hm)
    exact ⟨_, hasPlain_frozen_iff.mpr ⟨ps, hp, rfl⟩⟩
  | pairs items _ ih =>
    obtain ⟨hk, hi⟩ := (everyNode_pairs_iff items).mp h
    obtain ⟨es, he⟩ := keyed items hk
    have exists_plain : ∀ e ∈ es, ∃ p, e.2.HasPlain p := by
      intro e hm
      obtain ⟨item, him, hs⟩ := (keyedEntries_eq_ok_iff.mp he).exists_of_mem_right hm
      exact ih item him _ _ hs (everyNode_of_split scalar tuple (hi item him) hs)
    obtain ⟨ps, hp⟩ := Entries.Pointwise.of_forall_exists exists_plain
    exact ⟨_, hasPlain_pairs_iff.mpr ⟨es, ps, he, hp, rfl⟩⟩

theorem exists_hasPlain_of_isPairFree {v : Value} (h : v.isPairFree = true) :
    ∃ p, v.HasPlain p := by
  refine exists_hasPlain (fun _ => rfl) (fun _ => rfl) (fun items hk => ?_) h
  cases hk

theorem exists_hasPlain_of_isWellFormed {v : Value} (h : v.isWellFormed = true) :
    ∃ p, v.HasPlain p := by
  exact exists_hasPlain (fun _ => rfl) (fun _ => rfl) (fun _ hk => Fault.isOk_iff.mp hk) h

/-! Parts of a tree that keeps the rules of decoding. -/

theorem Items.isWellFormed {v : Value} {items : List Value} (h : v.Items items)
    (hw : v.isWellFormed = true) : ∀ item ∈ items, item.isWellFormed = true := by
  cases h with
  | list => exact ((everyNode_list_iff items).mp hw).2
  | tuple => exact ((everyNode_tuple_iff items).mp hw).2

theorem exists_lists_of_isWellFormed {v : Value} (hw : v.isWellFormed = true)
    (h : v.hasEntries = true) : ∃ es, v.Lists es := by
  cases v with
  | scalar s => cases h
  | list items => cases h
  | tuple items => cases h
  | map es => exact ⟨es, .map es⟩
  | frozen es => exact ⟨es, .frozen es⟩
  | pairs items =>
    obtain ⟨es, he⟩ := Fault.isOk_iff.mp ((everyNode_pairs_iff items).mp hw).1
    exact ⟨es, .pairs he⟩

theorem Lists.everyNode {test : Value → Bool} (scalar : ∀ s, test (.scalar s) = true)
    (tuple : ∀ items, test (.tuple items) = true) {v : Value} {es : Entries Value} (h : v.Lists es)
    (hv : everyNode test v = true) : ∀ e ∈ es, Value.everyNode test e.2 = true := by
  cases h with
  | map => exact ((everyNode_map_iff es).mp hv).2
  | frozen => exact ((everyNode_frozen_iff es).mp hv).2
  | @pairs items _ h =>
    intro e he
    obtain ⟨item, hi, hs⟩ := (keyedEntries_eq_ok_iff.mp h).exists_of_mem_right he
    exact everyNode_of_split scalar tuple (((everyNode_pairs_iff items).mp hv).2 item hi) hs

/-- Of the entries under one key the last one counts. -/
theorem Lists.everyNode_ofList {test : Value → Bool} (scalar : ∀ s, test (.scalar s) = true)
    (tuple : ∀ items, test (.tuple items) = true) {v : Value} {es : Entries Value} (h : v.Lists es)
    (hv : Value.everyNode test v = true) :
    ∀ e ∈ Entries.ofList es, Value.everyNode test e.2 = true := by
  intro e he
  obtain ⟨f, hf, hfe⟩ := List.mem_map.mp (Entries.sides_of_mem_ofList he).2
  exact hfe ▸ h.everyNode scalar tuple hv f hf

theorem Lists.isWellFormed {v : Value} {es : Entries Value} (h : v.Lists es)
    (hw : v.isWellFormed = true) : ∀ e ∈ es, e.2.isWellFormed = true :=
  h.everyNode (fun _ => rfl) (fun _ => rfl) hw

theorem Lists.isWellFormed_ofList {v : Value} {es : Entries Value} (h : v.Lists es)
    (hw : v.isWellFormed = true) : ∀ e ∈ Entries.ofList es, e.2.isWellFormed = true :=
  h.everyNode_ofList (fun _ => rfl) (fun _ => rfl) hw

theorem isWellFormed_of_entries? {value : Value} {es : Entries Value}
    (hw : value.isWellFormed = true) (h : value.entries? = .ok (some es)) :
    ∀ e ∈ es, e.2.isWellFormed = true := by
  rcases entries?_eq_ok_some_iff.mp h with rfl | rfl | ⟨items, rfl, hp⟩
  · exact (Lists.map es).isWellFormed hw
  · exact (Lists.frozen es).isWellFormed hw
  · intro e he
    simp only [entries?, byPosition, Fault.bind_eq_ok_iff, Fault.pure_eq_ok_iff,
      Option.some.injEq] at hp
    obtain ⟨_, ⟨ns, -, rfl⟩, rfl⟩ := hp
    obtain ⟨n, -, rfl⟩ := List.mem_map.mp he
    dsimp only
    rw [List.getD_eq_getElem?_getD]
    cases hn : items[n.2]? with
    | none => rfl
    | some item => exact ((everyNode_pairs_iff items).mp hw).2 item (List.mem_of_getElem? hn)

theorem Maps.distinct {v : Value} {es : Entries Value} (h : v.Maps es)
    (hw : v.isWellFormed = true) : Entries.distinct (es.map (·.1)) = true := by
  cases h with
  | map => exact ((everyNode_map_iff es).mp hw).1
  | frozen => exact ((everyNode_frozen_iff es).mp hw).1
  | empty => rfl

theorem Maps.exists_plain {v p : Value} {es : Entries Value} (h : v.Maps es)
    (hw : v.isWellFormed = true) (hp : v.HasPlain p) :
    ∃ ps : Entries Value, p = .map ps ∧ Entries.Pointwise HasPlain es ps ∧
      Entries.distinct (ps.map (·.1)) = true := by
  obtain ⟨ps, hps, rfl⟩ := h.hasPlain_iff.mp hp
  exact ⟨ps, rfl, hps, hps.keys ▸ h.distinct hw⟩

/-- The plain form of a mapping has the plain forms of the entries that count. -/
theorem Lists.exists_plain_ofList {v p : Value} {es : Entries Value} (h : v.Lists es)
    (hw : v.isWellFormed = true) (hp : v.HasPlain p) :
    ∃ ps : Entries Value, p = .map ps ∧
      Entries.Pointwise HasPlain (Entries.ofList es) ps := by
  obtain ⟨ps, hps, rfl⟩ := (h.hasPlain_ofList_iff fun hm => hm.distinct hw).mp hp
  exact ⟨_, rfl, hps.ofList⟩

/-- In a tree that keeps the rules of decoding it matters only whether a container is a sequence or
a mapping. -/
@[elab_as_elim]
theorem wellFormed_induction {P : ∀ v : Value, v.isWellFormed = true → Prop}
    (scalar : ∀ s (h : isWellFormed (.scalar s) = true), P (.scalar s) h)
    (sequence : ∀ (v : Value) (xs : List Value) (_ : v.Items xs) (h : v.isWellFormed = true)
      (each : ∀ x ∈ xs, x.isWellFormed = true), (∀ x (hx : x ∈ xs), P x (each x hx)) → P v h)
    (mapping : ∀ (v : Value) (es : Entries Value) (_ : v.Lists es) (h : v.isWellFormed = true)
      (each : ∀ e ∈ es, e.2.isWellFormed = true), (∀ e (he : e ∈ es), P e.2 (each e he)) → P v h)
    (v : Value) (h : v.isWellFormed = true) : P v h := by
  induction v using Value.induction with
  | scalar s => exact scalar s h
  | list xs ih =>
    have each := (Items.list xs).isWellFormed h
    exact sequence _ xs (.list xs) h each fun x hx => ih x hx (each x hx)
  | tuple xs ih =>
    have each := (Items.tuple xs).isWellFormed h
    exact sequence _ xs (.tuple xs) h each fun x hx => ih x hx (each x hx)
  | map es ih =>
    have each := (Lists.map es).isWellFormed h
    exact mapping _ es (.map es) h each fun e he => ih e he (each e he)
  | frozen es ih =>
    have each := (Lists.frozen es).isWellFormed h
    exact mapping _ es (.frozen es) h each fun e he => ih e he (each e he)
  | pairs items _ ih =>
    obtain ⟨es, hk⟩ := Fault.isOk_iff.mp ((everyNode_pairs_iff items).mp h).1
    have each := (Lists.pairs hk).isWellFormed h
    refine mapping _ es (.pairs hk) h each fun e he => ?_
    obtain ⟨item, hi, hs⟩ := (keyedEntries_eq_ok_iff.mp hk).exists_of_mem_right he
    exact ih item hi _ _ hs (each e he)

end Value

end ServiceModel
