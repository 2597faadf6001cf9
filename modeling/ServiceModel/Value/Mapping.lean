import ServiceModel.Fault
import ServiceModel.Value.Basic
import ServiceModel.Value.Entries

/-!
# Values as mappings

Reading the parts of a value, its entries and its fields. A pair list gives all its entries when
it is read entry by entry. Read as one mapping, it is read by position: each key is taken for the
position of the entry to store under it, so a pair list whose keys are texts has no such reading.
-/
namespace ServiceModel.Value

/-- The characters of a text, the items of a sequence, the keys of a mapping. -/
def parts : Value → Except Fault (List Value)
  | .scalar (.str s) => .ok (s.toList.map fun c => .str c.toString)
  | .scalar _ => .error .notIterable
  | .list items => .ok items
  | .tuple items => .ok items
  | .pairs entries => .ok entries
  | .map entries => .ok (entries.map fun e => e.1.toValue)
  | .frozen entries => .ok (entries.map fun e => e.1.toValue)

def entry (key value : Value) : Value := .tuple [key, value]

def split (value : Value) : Except Fault (Value × Value) :=
  match value.parts with
  | .ok [key, item] => .ok (key, item)
  | .ok _ => .error .notAPair
  | .error fault => .error fault

theorem split_entry (key value : Value) : split (entry key value) = .ok (key, value) := rfl

def key (value : Value) : Except Fault Key :=
  match value.toKey? with
  | some key => .ok key
  | none => .error .unhashable

theorem key_toValue (k : Key) : k.toValue.key = .ok k := by simp [key, toKey_toValue]

def splitAll (entries : List Value) : Except Fault (List (Value × Value)) := entries.mapM split

def hasEntries : Value → Bool
  | .map _ => true
  | .frozen _ => true
  | .pairs _ => true
  | _ => false

/-- Every entry of a mapping, those with repeated keys included. -/
def items? : Value → Option (List Value)
  | .map entries => some (entries.map fun e => entry e.1.toValue e.2)
  | .frozen entries => some (entries.map fun e => entry e.1.toValue e.2)
  | .pairs entries => some entries
  | _ => none

theorem items?_isSome (value : Value) : value.items?.isSome = value.hasEntries := by
  rcases value with (_ | _ | _ | _ | _) | _ | _ | _ | _ | _ <;> rfl

/-- Every entry of a mapping, or the parts of a value that is none. -/
def itemsOrParts (value : Value) : Except Fault (List Value) :=
  match value.items? with
  | some items => .ok items
  | none => value.parts

/-- Splits entries whose keys are to be keys of one mapping. -/
def keyedEntries : List Value → Except Fault (List (Key × Value))
  | [] => .ok []
  | item :: rest => do
    let (key, value) ← item.split
    let key ← key.key
    let rest ← keyedEntries rest
    return (key, value) :: rest

theorem keyedEntries_entry (entries : Entries Value) :
    keyedEntries (entries.map fun e => entry e.1.toValue e.2) = .ok entries := by
  induction entries with
  | nil => rfl
  | cons e rest ih =>
    simp [keyedEntries, split_entry, key_toValue, ih, bind, Except.bind, pure, Except.pure]

/-- The place of a position in a list of the given length; a negative one counts from the end. -/
def place (length : Nat) : Value → Except Fault Nat
  | .scalar (.bool b) => if (if b then 1 else 0) < length then .ok (if b then 1 else 0)
    else .error .positionOutOfRange
  | .scalar (.int n) =>
    let position := if n < 0 then n + length else n
    if 0 ≤ position ∧ position < length then .ok position.toNat else .error .positionOutOfRange
  | _ => .error .notAPosition

/-- The keys of a pair list, each with the position that it names. -/
def positions (entries : List Value) : Except Fault (Entries Nat) := do
  let split ← splitAll entries
  let placed ← split.mapM fun (key, _) => do
    let position ← place entries.length key
    let key ← key.key
    return (key, position)
  return Entries.ofList placed

def byPosition (entries : List Value) : Except Fault (Entries Value) := do
  return (← positions entries).mapValues fun n => entries.getD n .null

def entries? : Value → Except Fault (Option (Entries Value))
  | .map entries => .ok (some entries)
  | .frozen entries => .ok (some entries)
  | .pairs entries => do return some (← byPosition entries)
  | _ => .ok none

theorem entries?_map (entries : Entries Value) : entries? (.map entries) = .ok (some entries) :=
  rfl

theorem entries?_frozen (entries : Entries Value) :
    entries? (.frozen entries) = .ok (some entries) := rfl

/-- Looks a field up in a shape definition. Only a mapping has fields; asking another value for
one is a fault, except that a sequence or a text that does not hold the name is taken to lack it. -/
def fieldOf? (name : String) : Value → Except Fault (Option Value)
  | .map entries => .ok (Entries.field? entries name)
  | .frozen entries => .ok (Entries.field? entries name)
  | .scalar (.str s) => if (s.splitOn name).length = 1 then .ok none else .error .notAMapping
  | .scalar _ => .error .notIterable
  | .list items => without items
  | .tuple items => without items
  | .pairs items => without items
where
  without (items : List Value) : Except Fault (Option Value) :=
    if items.any fun item => item.str? == some name then .error .notAMapping else .ok none

/-- The mapping that a decoder makes of the entries it read: a map if no key is repeated, else a
pair list that keeps every entry. -/
def ofEntries (items : List Value) : Except Fault Value := do
  let split ← splitAll items
  let keys ← split.mapM fun (key, _) => key.key
  if Entries.distinct keys then
    return .map (keys.zip (split.map (·.2)))
  else
    return .pairs items

def mappingOfParts (value : Value) : Except Fault Value := do
  ofEntries (← value.parts)

/-- The keys of a mapping, those that are repeated included. -/
def allKeys : Value → Except Fault (List Value)
  | .pairs entries => do return (← splitAll entries).map (·.1)
  | .map entries => .ok (entries.map (·.1.toValue))
  | .frozen entries => .ok (entries.map (·.1.toValue))
  | _ => .error .notAPairList

def pairMapping : Value → Except Fault Value
  | .pairs entries => do return .map (← byPosition entries)
  | _ => .error .notAPairList

end ServiceModel.Value
