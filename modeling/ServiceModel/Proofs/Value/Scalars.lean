import ServiceModel.Proofs.Value.Inherited
import ServiceModel.Value.Literal

/-!
# The scalars of a tree

What all scalars of a tree satisfy, those in the keys of its mappings included. It goes over to
everything that is read from the tree. A written tree is on one line if its numbers are, since its
texts are quoted.
-/
namespace ServiceModel

namespace Scalar

/-- A test that goes over to what is read: texts are taken apart, null stands for what is absent,
and texts without newlines are put in. -/
structure Inherited (test : Scalar → Bool) : Prop where
  null : test .null = true
  chars : ∀ s, test (.str s) = true → ∀ c ∈ s.toList, test (.str c.toString) = true
  fixed : ∀ s, Text.newlines s = 0 → test (.str s) = true

/-- No number holds a newline. -/
def numberOnLine : Scalar → Bool
  | .float x => Text.newlines x.text = 0
  | _ => true

/-- The text of the scalar holds no newline. -/
def onLine (s : Scalar) : Bool := Text.newlines s.text = 0

theorem inherited_numberOnLine : Inherited numberOnLine where
  null := rfl
  chars _ _ _ _ := rfl
  fixed _ _ := rfl

theorem inherited_onLine : Inherited onLine where
  null := by decide
  chars s h c hc := by
    have none : '\n' ∉ s.toList := Text.newlines_eq_zero_iff.mp (of_decide_eq_true h)
    refine decide_eq_true (Text.newlines_eq_zero_iff.mpr fun hm => none ?_)
    have same : '\n' = c := by simpa [text] using hm
    exact same ▸ hc
  fixed _ h := decide_eq_true h

theorem numberOnLine_of_onLine : ∀ s, onLine s = true → numberOnLine s = true
  | .float _, h => h
  | .null, _ | .bool _, _ | .int _, _ | .str _, _ => rfl

theorem newlines_literal {s : Scalar} (h : numberOnLine s = true) :
    Text.newlines s.literal = 0 := by
  cases s with
  | null => decide
  | bool b => cases b <;> decide
  | int n => exact Text.newlines_toString_int n
  | float x => exact of_decide_eq_true h
  | str s => exact Text.newlines_ofList (Text.Quoted.newline_not_mem_encode _)

end Scalar

namespace Value

/-- Every scalar in the tree passes the test, also in the keys of mappings. -/
def everyScalar (test : Scalar → Bool) : Value → Bool := everyNode fun
  | .scalar s => test s
  | .map es | .frozen es => es.all fun e => everyNode ofScalar e.1.toValue
  | .list _ | .tuple _ | .pairs _ => true
where
  ofScalar : Value → Bool
    | .scalar s => test s
    | _ => true

/-- The same of every key and of every value. -/
def EntriesPass (test : Scalar → Bool) (es : Entries Value) : Prop :=
  es.Each fun value => value.everyScalar test = true

section
variable {test : Scalar → Bool}

/-- A key holds no mapping, so nothing is left to be said of keys inside it. -/
theorem everyScalar_toValue (key : Key) :
    key.toValue.everyScalar test = everyNode (everyScalar.ofScalar test) key.toValue := by
  refine induction_toValue (P := fun v =>
    v.everyScalar test = everyNode (everyScalar.ofScalar test) v) (fun _ => rfl) ?_ key
  intro items ih
  rw [Bool.eq_iff_iff, everyScalar, everyNode_tuple_iff, everyNode_tuple_iff]
  exact and_congr Iff.rfl (forall₂_congr fun item hm => Bool.eq_iff_iff.mp (ih item hm))

theorem everyScalar_list_iff {items : List Value} : (Value.list items).everyScalar test = true ↔
    ∀ item ∈ items, item.everyScalar test = true :=
  (everyNode_list_iff items).trans (and_iff_right rfl)

theorem everyScalar_tuple_iff {items : List Value} : (Value.tuple items).everyScalar test = true ↔
    ∀ item ∈ items, item.everyScalar test = true :=
  (everyNode_tuple_iff items).trans (and_iff_right rfl)

theorem everyScalar_pairs_iff {items : List Value} : (Value.pairs items).everyScalar test = true ↔
    ∀ item ∈ items, item.everyScalar test = true :=
  (everyNode_pairs_iff items).trans (and_iff_right rfl)

theorem entriesPass_iff {es : Entries Value} :
    ((es.all fun e => everyNode (everyScalar.ofScalar test) e.1.toValue) = true ∧
      ∀ e ∈ es, e.2.everyScalar test = true) ↔ EntriesPass test es := by
  simp only [List.all_eq_true, ← everyScalar_toValue]
  exact forall₂_and.symm

theorem everyScalar_map_iff {es : Entries Value} :
    (Value.map es).everyScalar test = true ↔ EntriesPass test es :=
  (everyNode_map_iff es).trans entriesPass_iff

theorem everyScalar_frozen_iff {es : Entries Value} :
    (Value.frozen es).everyScalar test = true ↔ EntriesPass test es :=
  (everyNode_frozen_iff es).trans entriesPass_iff

theorem everyScalar_mono {other : Scalar → Bool} (h : ∀ s, test s = true → other s = true)
    {value : Value} (hv : value.everyScalar test = true) : value.everyScalar other = true := by
  have key : ∀ v, everyScalar.ofScalar test v = true → everyScalar.ofScalar other v = true := by
    intro v hv
    cases v with
    | scalar s => exact h s hv
    | _ => rfl
  have keys : ∀ es : Entries Value,
      (es.all fun e => everyNode (everyScalar.ofScalar test) e.1.toValue) = true →
      (es.all fun e => everyNode (everyScalar.ofScalar other) e.1.toValue) = true := by
    intro es hes
    rw [List.all_eq_true] at hes ⊢
    exact fun e he => everyNode_mono key (hes e he)
  refine everyNode_mono (fun v hv => ?_) hv
  cases v with
  | scalar s => exact h s hv
  | map es => exact keys es hv
  | frozen es => exact keys es hv
  | _ => rfl

end

/-! What is read from a tree. -/

section
variable {test : Scalar → Bool} {value : Value} {items : List Value} {es : Entries Value}

theorem everyScalar_parts (ht : Scalar.Inherited test) (h : value.everyScalar test = true)
    (hp : value.parts = .ok items) : ∀ item ∈ items, item.everyScalar test = true := by
  cases value with
  | scalar s =>
    cases s with
    | str s =>
      obtain rfl := Except.ok.inj hp
      intro item hi
      obtain ⟨c, hc, rfl⟩ := List.mem_map.mp hi
      exact ht.chars s h c hc
    | _ => cases hp
  | list _ =>
    obtain rfl := Except.ok.inj hp
    exact everyScalar_list_iff.mp h
  | tuple _ =>
    obtain rfl := Except.ok.inj hp
    exact everyScalar_tuple_iff.mp h
  | map es =>
    obtain rfl := Except.ok.inj hp
    exact List.forall_mem_map.mpr fun e he => (everyScalar_map_iff.mp h e he).1
  | frozen es =>
    obtain rfl := Except.ok.inj hp
    exact List.forall_mem_map.mpr fun e he => (everyScalar_frozen_iff.mp h e he).1
  | pairs _ =>
    obtain rfl := Except.ok.inj hp
    exact everyScalar_pairs_iff.mp h

theorem everyScalar_split (ht : Scalar.Inherited test) {item k v : Value}
    (h : item.everyScalar test = true) (hs : item.split = .ok (k, v)) :
    k.everyScalar test = true ∧ v.everyScalar test = true := by
  unfold split at hs
  split at hs
  · rename_i key value hp
    obtain ⟨rfl, rfl⟩ : key = k ∧ value = v := by simpa using hs
    obtain ⟨hkey, hvalue⟩ := List.forall_mem_cons.mp (everyScalar_parts ht h hp)
    exact ⟨hkey, hvalue _ (List.mem_singleton_self _)⟩
  · cases hs
  · cases hs

theorem entriesPass_of_keyedEntries (ht : Scalar.Inherited test)
    (h : ∀ item ∈ items, item.everyScalar test = true) (hk : keyedEntries items = .ok es) :
    EntriesPass test es := by
  intro e he
  obtain ⟨item, hi, hs⟩ := (keyedEntries_eq_ok_iff.mp hk).exists_of_mem_right he
  exact everyScalar_split ht (h item hi) hs

theorem everyScalar_splitAll (ht : Scalar.Inherited test)
    (h : ∀ item ∈ items, item.everyScalar test = true) {entries : List (Value × Value)}
    (hs : splitAll items = .ok entries) :
    ∀ e ∈ entries, e.1.everyScalar test = true ∧ e.2.everyScalar test = true := by
  intro e he
  obtain ⟨item, hi, hs⟩ := (Fault.mapM_eq_ok_iff.mp hs).exists_of_mem_right he
  exact everyScalar_split ht (h item hi) hs

theorem everyScalar_items? (h : value.everyScalar test = true) (hi : value.items? = some items) :
    ∀ item ∈ items, item.everyScalar test = true := by
  have entries : ∀ {es : Entries Value}, EntriesPass test es →
      ∀ item ∈ es.map fun e => entry e.1.toValue e.2, item.everyScalar test = true := by
    intro es hes
    refine List.forall_mem_map.mpr fun e he => everyScalar_tuple_iff.mpr ?_
    exact List.forall_mem_cons.mpr ⟨(hes e he).1,
      fun v hv => List.mem_singleton.mp hv ▸ (hes e he).2⟩
  rcases value with (_ | _ | _ | _ | _) | _ | _ | es | es | _
  case map =>
    obtain rfl := Option.some.inj hi
    exact entries (everyScalar_map_iff.mp h)
  case frozen =>
    obtain rfl := Option.some.inj hi
    exact entries (everyScalar_frozen_iff.mp h)
  case pairs =>
    obtain rfl := Option.some.inj hi
    exact everyScalar_pairs_iff.mp h
  all_goals cases hi

theorem Lists.entriesPass (ht : Scalar.Inherited test) (hl : value.Lists es)
    (h : value.everyScalar test = true) : EntriesPass test es := by
  cases hl with
  | map => exact everyScalar_map_iff.mp h
  | frozen => exact everyScalar_frozen_iff.mp h
  | pairs hk => exact entriesPass_of_keyedEntries ht (everyScalar_pairs_iff.mp h) hk

theorem entriesPass_of_entries? (ht : Scalar.Inherited test) (h : value.everyScalar test = true)
    (he : value.entries? = .ok (some es)) : EntriesPass test es := by
  rcases entries?_eq_ok_some_iff.mp he with rfl | rfl | ⟨items, rfl, hp⟩
  · exact everyScalar_map_iff.mp h
  · exact everyScalar_frozen_iff.mp h
  · have each := everyScalar_pairs_iff.mp h
    simp only [entries?, byPosition, Fault.bind_eq_ok_iff, Fault.pure_eq_ok_iff,
      Option.some.injEq] at hp
    obtain ⟨_, ⟨ns, hns, rfl⟩, rfl⟩ := hp
    obtain ⟨placed, rfl, hplaced⟩ := exists_placed_of_positions hns
    intro e hm
    obtain ⟨n, hn, rfl⟩ := List.mem_map.mp hm
    obtain ⟨d, hd, hk⟩ := List.mem_map.mp (Entries.sides_of_mem_ofList hn).1
    obtain ⟨item, hi, -, v, hs⟩ := hplaced.exists_of_mem_right hd
    refine ⟨hk ▸ (everyScalar_split ht (each item hi) hs).1, ?_⟩
    dsimp only
    rw [List.getD_eq_getElem?_getD]
    cases hitem : items[n.2]? with
    | none => exact ht.null
    | some item => exact each item (List.mem_of_getElem? hitem)

theorem HasPlain.everyScalar (ht : Scalar.Inherited test) {plain : Value}
    (hp : value.HasPlain plain) (h : value.everyScalar test = true) :
    plain.everyScalar test = true := by
  have mapping : ∀ {es ps : Entries Value}, Entries.Pointwise HasPlain es ps →
      EntriesPass test es → (∀ e ∈ es, ∀ p, e.2.HasPlain p → e.2.everyScalar test = true →
        p.everyScalar test = true) → EntriesPass test ps := by
    intro es ps hq hes ih p hm
    obtain ⟨e, he, hk, hep⟩ := hq.exists_of_mem_right hm
    exact ⟨hk ▸ (hes e he).1, ih e he p.2 hep (hes e he).2⟩
  have sequence : ∀ {vs ps : List Value}, List.Forall₂ HasPlain vs ps →
      (∀ v ∈ vs, v.everyScalar test = true) → (∀ v ∈ vs, ∀ p, v.HasPlain p →
        v.everyScalar test = true → p.everyScalar test = true) →
      (Value.list ps).everyScalar test = true := by
    intro vs ps hq hvs ih
    refine everyScalar_list_iff.mpr fun p hm => ?_
    obtain ⟨v, hv, hvp⟩ := hq.exists_of_mem_right hm
    exact ih v hv p hvp (hvs v hv)
  induction value using Value.induction generalizing plain with
  | scalar s =>
    cases hp
    exact h
  | list items ih =>
    obtain ⟨ps, hq, rfl⟩ := hasPlain_list_iff.mp hp
    exact sequence hq (everyScalar_list_iff.mp h) fun v hv p hvp => ih v hv hvp
  | tuple items ih =>
    obtain ⟨ps, hq, rfl⟩ := hasPlain_tuple_iff.mp hp
    exact sequence hq (everyScalar_tuple_iff.mp h) fun v hv p hvp => ih v hv hvp
  | map es ih =>
    obtain ⟨ps, hq, rfl⟩ := hasPlain_map_iff.mp hp
    exact everyScalar_map_iff.mpr
      (mapping hq (everyScalar_map_iff.mp h) fun e he p hep => ih e he hep)
  | frozen es ih =>
    obtain ⟨ps, hq, rfl⟩ := hasPlain_frozen_iff.mp hp
    exact everyScalar_map_iff.mpr
      (mapping hq (everyScalar_frozen_iff.mp h) fun e he p hep => ih e he hep)
  | pairs items _ ih =>
    obtain ⟨es, ps, he, hq, rfl⟩ := hasPlain_pairs_iff.mp hp
    have passed := entriesPass_of_keyedEntries ht (everyScalar_pairs_iff.mp h) he
    refine everyScalar_map_iff.mpr (mapping hq passed fun e hm p hep => ?_).ofList
    obtain ⟨item, hi, hs⟩ := (keyedEntries_eq_ok_iff.mp he).exists_of_mem_right hm
    exact ih item hi _ _ hs hep

end

/-! Written trees. -/

section
open Text
variable {parts : List String}

theorem newlines_joined (h : ∀ part ∈ parts, newlines part = 0) :
    newlines (", ".intercalate parts) = 0 := by
  rw [newlines_intercalate (by decide), List.sum_eq_zero_iff_forall_eq_nat]
  exact List.forall_mem_map.mpr h

theorem newlines_squareBracketed (h : ∀ part ∈ parts, newlines part = 0) :
    newlines (squareBracketed parts) = 0 := by
  rw [squareBracketed, newlines_append, newlines_append, newlines_joined h]
  decide

theorem newlines_curlyBracketed (h : ∀ part ∈ parts, newlines part = 0) :
    newlines (curlyBracketed parts) = 0 := by
  rw [curlyBracketed, newlines_append, newlines_append, newlines_joined h]
  decide

theorem newlines_roundBracketed (h : ∀ part ∈ parts, newlines part = 0) :
    newlines (roundBracketed parts) = 0 := by
  unfold roundBracketed
  split
  · rw [newlines_append, newlines_append, List.forall_mem_singleton.mp h]
    decide
  · rw [newlines_append, newlines_append, newlines_joined h]
    decide

end

mutual

theorem literal_toValue : ∀ key : Key, key.toValue.literal = key.literal
  | .scalar _ => rfl
  | .tuple keys => by rw [Key.toValue, literal, Key.literal, literals_toValues keys]

theorem literals_toValues : ∀ keys : List Key, literals (Key.toValues keys) = Key.literals keys
  | [] => rfl
  | key :: rest => by
    rw [Key.toValues, literals, Key.literals, literal_toValue key, literals_toValues rest]

end

theorem entryLiterals_eq_map (es : Entries Value) :
    entryLiterals es = es.map fun e => e.1.literal ++ ": " ++ e.2.literal := by
  induction es with
  | nil => rfl
  | cons e rest ih => rw [entryLiterals, ih, List.map_cons]

section
open Text

theorem newlines_literals {items : List Value} (h : ∀ item ∈ items, newlines item.literal = 0) :
    ∀ part ∈ literals items, newlines part = 0 := by
  rw [literals_eq_map]
  exact List.forall_mem_map.mpr h

theorem newlines_key {key : Key} (h : key.toValue.everyScalar Scalar.numberOnLine = true) :
    newlines key.literal = 0 := by
  rw [← literal_toValue]
  refine induction_toValue (P := fun v => v.everyScalar Scalar.numberOnLine = true →
    newlines v.literal = 0) (fun s hs => Scalar.newlines_literal hs) (fun items ih hi => ?_) key h
  have each := everyScalar_tuple_iff.mp hi
  rw [literal]
  exact newlines_roundBracketed (newlines_literals fun item hm => ih item hm (each item hm))

theorem newlines_entryLiterals {es : Entries Value} (h : EntriesPass Scalar.numberOnLine es)
    (hv : ∀ e ∈ es, newlines e.2.literal = 0) :
    newlines (curlyBracketed (entryLiterals es)) = 0 := by
  refine newlines_curlyBracketed ?_
  rw [entryLiterals_eq_map]
  refine List.forall_mem_map.mpr fun e he => ?_
  rw [newlines_append, newlines_append, newlines_key (h e he).1, hv e he]
  decide

theorem newlines_literal {value : Value} (h : value.everyScalar Scalar.numberOnLine = true) :
    newlines value.literal = 0 := by
  induction value using Value.induction with
  | scalar s => exact Scalar.newlines_literal h
  | list items ih =>
    have each := everyScalar_list_iff.mp h
    rw [literal]
    exact newlines_squareBracketed (newlines_literals fun item hm => ih item hm (each item hm))
  | tuple items ih =>
    have each := everyScalar_tuple_iff.mp h
    rw [literal]
    exact newlines_roundBracketed (newlines_literals fun item hm => ih item hm (each item hm))
  | map es ih =>
    have each := everyScalar_map_iff.mp h
    rw [literal]
    exact newlines_entryLiterals each fun e he => ih e he (each e he).2
  | frozen es ih =>
    have each := everyScalar_frozen_iff.mp h
    rw [literal, newlines_append, newlines_append,
      newlines_entryLiterals each fun e he => ih e he (each e he).2]
    decide
  | pairs items ih _ =>
    have each := everyScalar_pairs_iff.mp h
    rw [literal]
    exact newlines_squareBracketed (newlines_literals fun item hm => ih item hm (each item hm))

end

/-- Only a text is written as it is. -/
theorem newlines_text {value : Value} (h : value.everyScalar Scalar.onLine = true) :
    Text.newlines value.text = 0 := by
  have literals := newlines_literal (everyScalar_mono Scalar.numberOnLine_of_onLine h)
  cases value with
  | scalar s => exact of_decide_eq_true h
  | frozen es =>
    rw [literal, Text.newlines_append, Text.newlines_append] at literals
    rw [text]
    omega
  | _ => exact literals

end Value

open Value in
/-- What is read from a tree has no scalars but those of the tree and null. -/
theorem Scalar.Inherited.everyScalar {test : Scalar → Bool} (ht : Scalar.Inherited test) :
    Value.Inherited fun value => value.everyScalar test = true where
  null := ht.null
  empty := rfl
  fixed := ht.fixed
  list := everyScalar_list_iff.mp
  tuple := everyScalar_tuple_iff.mp
  pairs := everyScalar_pairs_iff.mp
  map := everyScalar_map_iff.mp
  entries h he := everyScalar_map_iff.mpr (entriesPass_of_entries? ht h he)
  listed h hl := hl.entriesPass ht h
  split h hi hs := everyScalar_splitAll ht (everyScalar_items? h hi) hs
  plain h hp := hp.everyScalar ht h

end ServiceModel
