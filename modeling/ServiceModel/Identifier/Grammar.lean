import ServiceModel.Text.Cut

/-!
# The grammar of identifiers

* an identifier is a word of ASCII letters, digits and underscores that starts with at most two
  underscores and holds something else after them;
* the name of an enumeration member is an identifier that starts with a letter;
* a namespace is one or more identifiers joined by dots;
* a shape id is `namespace#name` (absolute) or a bare name, and may select a member with `$member`.

A rule is always matched against a whole text.
-/
namespace ServiceModel

inductive Rule
  | identifier
  | enumMember
  | namespacePath
  | absoluteId
  | rootId
  | shapeId
  | memberSelector
deriving DecidableEq, Repr

namespace Rule

def all : List Rule :=
  [.identifier, .enumMember, .namespacePath, .absoluteId, .rootId, .shapeId, .memberSelector]

def name : Rule → String
  | .identifier => "Identifier"
  | .enumMember => "EnumMemberIdentifier"
  | .namespacePath => "Namespace"
  | .absoluteId => "AbsoluteRootShapeId"
  | .rootId => "RootShapeId"
  | .shapeId => "ShapeId"
  | .memberSelector => "ShapeIdMember"

def isWordChar (c : Char) : Bool := c.isAlphanum || c == '_'

def isIdentifier (cs : List Char) : Bool :=
  decide ((cs.takeWhile (· == '_')).length ≤ 2) &&
    match cs.dropWhile (· == '_') with
    | [] => false
    | c :: rest => c.isAlphanum && rest.all isWordChar

def isEnumMember : List Char → Bool
  | [] => false
  | c :: rest => c.isAlpha && rest.all isWordChar

def isNamespace (cs : List Char) : Bool := (Text.pieces '.' cs).all isIdentifier

def isAbsoluteId (cs : List Char) : Bool :=
  match Text.after? '#' cs with
  | none => false
  | some name => isNamespace (Text.before '#' cs) && isIdentifier name

def isRootId (cs : List Char) : Bool := isAbsoluteId cs || isIdentifier cs

def isShapeId (cs : List Char) : Bool :=
  isRootId (Text.before '$' cs) &&
    match Text.after? '$' cs with
    | none => true
    | some member => isIdentifier member

def isMemberSelector : List Char → Bool
  | '$' :: member => isIdentifier member
  | _ => false

def accepts : Rule → List Char → Bool
  | .identifier => isIdentifier
  | .enumMember => isEnumMember
  | .namespacePath => isNamespace
  | .absoluteId => isAbsoluteId
  | .rootId => isRootId
  | .shapeId => isShapeId
  | .memberSelector => isMemberSelector

theorem isRootId_of_isAbsoluteId {cs : List Char} (h : isAbsoluteId cs = true) :
    isRootId cs = true := by
  simp [isRootId, h]

end Rule

end ServiceModel
