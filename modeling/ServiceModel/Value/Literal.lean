import ServiceModel.Value.Basic

/-!
# The written form of a value

`literal` writes a tree on one line with its texts quoted. `text` differs from it on two kinds of
value: it gives a text as it is, and it writes a fixed mapping without saying that it is fixed. A
pair list is written as the list of its entries.
-/
namespace ServiceModel

def squareBracketed (parts : List String) : String := "[" ++ ", ".intercalate parts ++ "]"

def curlyBracketed (parts : List String) : String := "\x7b" ++ ", ".intercalate parts ++ "\x7d"

namespace Value

mutual

def literal : Value → String
  | .scalar s => s.literal
  | .list items => squareBracketed (literals items)
  | .tuple items => roundBracketed (literals items)
  | .map entries => curlyBracketed (entryLiterals entries)
  | .frozen entries => "mappingproxy(" ++ curlyBracketed (entryLiterals entries) ++ ")"
  | .pairs entries => squareBracketed (literals entries)

def literals : List Value → List String
  | [] => []
  | item :: rest => literal item :: literals rest

def entryLiterals : List (Key × Value) → List String
  | [] => []
  | (key, value) :: rest => (key.literal ++ ": " ++ literal value) :: entryLiterals rest

end

def text : Value → String
  | .scalar s => s.text
  | .frozen entries => curlyBracketed (entryLiterals entries)
  | value => value.literal

theorem literals_eq_map (items : List Value) : literals items = items.map literal := by
  induction items with
  | nil => rfl
  | cons item rest ih => simp [literals, ih]

end Value

end ServiceModel
