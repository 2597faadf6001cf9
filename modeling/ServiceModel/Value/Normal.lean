import ServiceModel.Value.Mapping

/-!
# Plain and fixed forms

`toPlain` makes a tree plain: every mapping a map, every sequence a list, a repeated key last
value wins. `toFixed` makes it fixed: every mapping frozen, every sequence a tuple. Both keep
scalars and keys as they are.
-/
namespace ServiceModel.Value

/-- The plain form of a key that stands as an item. -/
def plainKey : Key → Value
  | .scalar s => .scalar s
  | .tuple keys => .list (plainKeys keys)
where
  plainKeys : List Key → List Value
    | [] => []
    | key :: rest => plainKey key :: plainKeys rest

mutual

def toPlain : Value → Except Fault Value
  | .scalar s => .ok (.scalar s)
  | .list items => .list <$> toPlainAll items
  | .tuple items => .list <$> toPlainAll items
  | .map entries => .map <$> toPlainEntries entries
  | .frozen entries => .map <$> toPlainEntries entries
  | .pairs entries => (fun es => .map (Entries.ofList es)) <$> toPlainPairs entries

def toPlainAll : List Value → Except Fault (List Value)
  | [] => .ok []
  | item :: rest => do
    let item ← toPlain item
    let rest ← toPlainAll rest
    return item :: rest

def toPlainEntries : List (Key × Value) → Except Fault (List (Key × Value))
  | [] => .ok []
  | (key, value) :: rest => do
    let value ← toPlain value
    let rest ← toPlainEntries rest
    return (key, value) :: rest

def toPlainPairs : List Value → Except Fault (List (Key × Value))
  | [] => .ok []
  | item :: rest => do
    let entry ← toPlainPair item
    let rest ← toPlainPairs rest
    return entry :: rest

/-- Splits an entry into its key and the plain form of its value. -/
def toPlainPair : Value → Except Fault (Key × Value)
  | .tuple [k, v] => do
    let value ← toPlain v
    return (← k.key, value)
  | .list [k, v] => do
    let value ← toPlain v
    return (← k.key, value)
  | .pairs [k, v] => do
    let value ← toPlain v
    return (← k.key, value)
  | .map [(k, _), (v, _)] => .ok (k, plainKey v)
  | .frozen [(k, _), (v, _)] => .ok (k, plainKey v)
  | .scalar s => match s with
    | .str t => match t.toList with
      | [k, v] => .ok (.str k.toString, .str v.toString)
      | _ => .error .notAPair
    | _ => .error .notIterable
  | _ => .error .notAPair

end

mutual

def toFixed : Value → Except Fault Value
  | .scalar s => .ok (.scalar s)
  | .list items => .tuple <$> toFixedAll items
  | .tuple items => .tuple <$> toFixedAll items
  | .map entries => .frozen <$> toFixedEntries entries
  | .frozen entries => .frozen <$> toFixedEntries entries
  | .pairs entries => do
    let frozen := toFixedEach entries
    let positions ← positions entries
    let entries ← positions.mapM fun (key, n) => do
      return (key, ← frozen.getD n (.ok .null))
    return .frozen entries

def toFixedAll : List Value → Except Fault (List Value)
  | [] => .ok []
  | item :: rest => do
    let item ← toFixed item
    let rest ← toFixedAll rest
    return item :: rest

def toFixedEntries : List (Key × Value) → Except Fault (List (Key × Value))
  | [] => .ok []
  | (key, value) :: rest => do
    let value ← toFixed value
    let rest ← toFixedEntries rest
    return (key, value) :: rest

/-- Fixes item by item; a fault in one does not touch the others. -/
def toFixedEach : List Value → List (Except Fault Value)
  | [] => []
  | item :: rest => toFixed item :: toFixedEach rest

end

end ServiceModel.Value
