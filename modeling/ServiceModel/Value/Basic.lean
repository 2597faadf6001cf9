import ServiceModel.Value.Key

/-!
# Value trees

A decoded document is a tree of scalars, sequences and mappings. Sequences and mappings come in a
changeable form (`list`, `map`) and a fixed one (`tuple`, `frozen`). A mapping in which a key is
repeated is a pair list: it keeps every entry as it was written, in order.
-/
namespace ServiceModel

inductive Value
  | scalar (s : Scalar)
  | list (items : List Value)
  | tuple (items : List Value)
  | map (entries : List (Key × Value))
  | frozen (entries : List (Key × Value))
  | pairs (entries : List Value)

namespace Value

@[match_pattern] abbrev null : Value := .scalar .null

@[match_pattern] abbrev bool (b : Bool) : Value := .scalar (.bool b)

@[match_pattern] abbrev int (n : Int) : Value := .scalar (.int n)

@[match_pattern] abbrev str (s : String) : Value := .scalar (.str s)

instance : Inhabited Value := ⟨.null⟩

/-- The mapping of these fields. -/
def ofFields (fields : List (String × Value)) : Value :=
  .map (fields.map fun field => (.str field.1, field.2))

def str? : Value → Option String
  | .str s => some s
  | _ => none

mutual

/-- Identity of form: types, order of entries and the text of numbers all count. -/
def identical : Value → Value → Bool
  | .scalar a, .scalar b => a == b
  | .list xs, .list ys => identicalAll xs ys
  | .tuple xs, .tuple ys => identicalAll xs ys
  | .map es, .map fs => identicalEntries es fs
  | .frozen es, .frozen fs => identicalEntries es fs
  | .pairs xs, .pairs ys => identicalAll xs ys
  | _, _ => false

def identicalAll : List Value → List Value → Bool
  | [], [] => true
  | x :: xs, y :: ys => identical x y && identicalAll xs ys
  | _, _ => false

def identicalEntries : List (Key × Value) → List (Key × Value) → Bool
  | [], [] => true
  | (k, v) :: es, (l, w) :: fs => k == l && identical v w && identicalEntries es fs
  | _, _ => false

end

mutual

theorem identical_iff : ∀ a b : Value, identical a b = true ↔ a = b
  | .scalar a, b => by cases b <;> simp [identical]
  | .list xs, b => by cases b <;> simp [identical, identicalAll_iff xs]
  | .tuple xs, b => by cases b <;> simp [identical, identicalAll_iff xs]
  | .map es, b => by cases b <;> simp [identical, identicalEntries_iff es]
  | .frozen es, b => by cases b <;> simp [identical, identicalEntries_iff es]
  | .pairs xs, b => by cases b <;> simp [identical, identicalAll_iff xs]

theorem identicalAll_iff : ∀ xs ys : List Value, identicalAll xs ys = true ↔ xs = ys
  | [], [] => by simp [identicalAll]
  | [], _ :: _ => by simp [identicalAll]
  | _ :: _, [] => by simp [identicalAll]
  | x :: xs, y :: ys => by simp [identicalAll, identical_iff x y, identicalAll_iff xs ys]

theorem identicalEntries_iff :
    ∀ es fs : List (Key × Value), identicalEntries es fs = true ↔ es = fs
  | [], [] => by simp [identicalEntries]
  | [], _ :: _ => by simp [identicalEntries]
  | _ :: _, [] => by simp [identicalEntries]
  | (k, v) :: es, (l, w) :: fs => by
    simp [identicalEntries, identical_iff v w, identicalEntries_iff es fs]

end

instance : DecidableEq Value := fun a b => decidable_of_iff _ (identical_iff a b)

end Value

namespace Key

mutual

def toValue : Key → Value
  | .scalar s => .scalar s
  | .tuple keys => .tuple (toValues keys)

def toValues : List Key → List Value
  | [] => []
  | key :: rest => toValue key :: toValues rest

end

end Key

namespace Value

mutual

/-- Only scalars and tuples of keys can be keys. -/
def toKey? : Value → Option Key
  | .scalar s => some (.scalar s)
  | .tuple items => (toKeys? items).map .tuple
  | _ => none

def toKeys? : List Value → Option (List Key)
  | [] => some []
  | item :: rest => match toKey? item, toKeys? rest with
    | some key, some keys => some (key :: keys)
    | _, _ => none

end

end Value

mutual

theorem toKey_toValue : ∀ key : Key, key.toValue.toKey? = some key
  | .scalar _ => rfl
  | .tuple keys => by simp [Key.toValue, Value.toKey?, toKeys_toValues keys]

theorem toKeys_toValues : ∀ keys : List Key, Value.toKeys? (Key.toValues keys) = some keys
  | [] => rfl
  | key :: rest => by
    simp [Key.toValues, Value.toKeys?, toKey_toValue key, toKeys_toValues rest]

end

end ServiceModel
