import ServiceModel.Value.Literal
import ServiceModel.Text.JsonString

/-!
# Paths into a document

A path is the list of the tokens on the way from the document to a node: keys of mappings and
positions in lists. `location` writes a path for a reader: positions in brackets, bare words
joined by dots, other tokens as string literals. `pointer` writes it as a JSON pointer.
-/
namespace ServiceModel

abbrev Path := List Value

namespace Path

/-- The number of an index token; truth values count as one. -/
def index? : Value → Option String
  | .scalar (.int n) => some (toString n)
  | .scalar (.bool b) => some (Scalar.literal (.bool b))
  | _ => none

def isBareStart (c : Char) : Bool := c.isAlpha || c == '_'

def isBareRest (c : Char) : Bool := c.isAlphanum || c == '_'

def isBare : List Char → Bool
  | [] => false
  | c :: rest => isBareStart c && rest.all isBareRest

def part (cs : List Char) : List Char := if isBare cs then cs else Text.JsonString.encode cs

def extend (written : List Char) (token : Value) : List Char :=
  match index? token with
  | some n => written ++ '[' :: n.toList ++ [']']
  | none =>
    if written.isEmpty then part token.text.toList
    else written ++ '.' :: part token.text.toList

def location (path : Path) : String := String.ofList (path.foldl extend [])

def escapePointer (c : Char) : List Char :=
  if c = '~' then ['~', '0'] else if c = '/' then ['~', '1'] else [c]

def pointer (path : Path) : String :=
  String.ofList (path.flatMap fun token => '/' :: token.text.toList.flatMap escapePointer)

theorem location_nil : location [] = "" := rfl

theorem pointer_append (p q : Path) : pointer (p ++ q) = pointer p ++ pointer q := by
  simp [pointer]

end Path

end ServiceModel
