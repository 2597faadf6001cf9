import ServiceModel.Value.Basic
import ServiceModel.Value.Entries

/-!
# Equality of values

Two values are equal when they hold the same things: numbers by value, sequences of one form item
by item, mappings by their entries in any order, fixed or not. A list and a tuple are never equal,
and a pair list equals the list of its entries.
-/
namespace ServiceModel.Value

mutual

def equal : Value → Value → Bool
  | .scalar a, .scalar b => a.same b
  | .list xs, .list ys => equalAll xs ys
  | .list xs, .pairs ys => equalAll xs ys
  | .pairs xs, .list ys => equalAll xs ys
  | .pairs xs, .pairs ys => equalAll xs ys
  | .tuple xs, .tuple ys => equalAll xs ys
  | .map es, .map fs => es.length == fs.length && includes es fs
  | .map es, .frozen fs => es.length == fs.length && includes es fs
  | .frozen es, .map fs => es.length == fs.length && includes es fs
  | .frozen es, .frozen fs => es.length == fs.length && includes es fs
  | _, _ => false

def equalAll : List Value → List Value → Bool
  | [], [] => true
  | x :: xs, y :: ys => equal x y && equalAll xs ys
  | _, _ => false

/-- Whether each entry of the first list has its equal in the second. -/
def includes : List (Key × Value) → List (Key × Value) → Bool
  | [], _ => true
  | (key, value) :: rest, others => (match Entries.get? others key with
      | some other => equal value other
      | none => false) && includes rest others

end

end ServiceModel.Value
