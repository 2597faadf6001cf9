import ServiceModel.Identifier.Grammar
import ServiceModel.Value.Literal

/-!
# Identifier tokens

A token is a text that stands for one rule of the grammar. `Token.parse` makes one from a value
that the rule accepts; a token may also be made of any text, and its parts are then those of that
text.
-/
namespace ServiceModel

structure Token (rule : Rule) where
  text : String
deriving DecidableEq, Repr

abbrev Identifier := Token .identifier
abbrev EnumMemberName := Token .enumMember
abbrev Namespace := Token .namespacePath
abbrev AbsoluteId := Token .absoluteId
abbrev ShapeId := Token .shapeId
abbrev MemberSelector := Token .memberSelector

/-- The id of a whole shape: absolute, or a name within its own document. -/
inductive RootId
  | absolute (id : AbsoluteId)
  | relative (id : Token .rootId)
deriving DecidableEq, Repr

structure Refusal where
  value : Value
  rule : Rule

def Refusal.message (r : Refusal) : String := s!"Invalid {r.rule.name}: {r.value.literal}"

namespace Token
variable {rule : Rule}

def ofChars (cs : List Char) : Token rule := ⟨String.ofList cs⟩

def read? (rule : Rule) (text : String) : Option (Token rule) :=
  if rule.accepts text.toList then some ⟨text⟩ else none

def parse (rule : Rule) (value : Value) : Except Refusal (Token rule) :=
  match value with
  | .str text => match read? rule text with
    | some token => .ok token
    | none => .error ⟨value, rule⟩
  | value => .error ⟨value, rule⟩

theorem read?_eq_some_iff {text : String} {token : Token rule} :
    read? rule text = some token ↔ token.text = text ∧ rule.accepts text.toList = true := by
  unfold read?
  split
  · rename_i h
    constructor
    · intro e; cases e; exact ⟨rfl, h⟩
    · rintro ⟨rfl, _⟩; rfl
  · rename_i h
    simp [h]

end Token

def isIdentifier (value : Value) : Bool :=
  match value with
  | .str text => Rule.identifier.accepts text.toList
  | _ => false

def isEnumMemberName (value : Value) : Bool :=
  match value with
  | .str text => Rule.enumMember.accepts text.toList
  | _ => false

namespace Namespace

def segments (ns : Namespace) : List Identifier :=
  (Text.pieces '.' ns.text.toList).map Token.ofChars

end Namespace

namespace AbsoluteId

def isAbsolute (id : AbsoluteId) : Bool := id.text.toList.contains '#'

def namespacePart (id : AbsoluteId) : Namespace := Token.ofChars (Text.before '#' id.text.toList)

def name (id : AbsoluteId) : Identifier := Token.ofChars (Text.afterLast '#' id.text.toList)

end AbsoluteId

namespace RootId

def text : RootId → String
  | .absolute id => id.text
  | .relative id => id.text

/-- A text with a number sign is an absolute id. -/
def ofChars (cs : List Char) : RootId :=
  if cs.contains '#' then .absolute (Token.ofChars cs) else .relative (Token.ofChars cs)

def isAbsolute (id : RootId) : Bool := id.text.toList.contains '#'

/-- An absolute id always has a namespace, a relative one only if its text holds a number sign. -/
def namespacePart? : RootId → Option Namespace
  | .absolute id => some id.namespacePart
  | .relative id =>
    if id.text.toList.contains '#' then some (Token.ofChars (Text.before '#' id.text.toList))
    else none

def name (id : RootId) : Identifier := Token.ofChars (Text.afterLast '#' id.text.toList)

def parse (value : Value) : Except Refusal RootId :=
  match Token.parse .absoluteId value with
  | .ok id => .ok (.absolute id)
  | .error _ => match Token.parse .identifier value with
    | .ok id => .ok (.relative ⟨id.text⟩)
    | .error _ => .error ⟨value, .rootId⟩

end RootId

namespace ShapeId

def root (id : ShapeId) : RootId := .ofChars (Text.before '$' id.text.toList)

def member? (id : ShapeId) : Option Identifier :=
  (Text.after? '$' id.text.toList).map Token.ofChars

end ShapeId

namespace MemberSelector

def member (selector : MemberSelector) : Identifier := Token.ofChars (selector.text.toList.drop 1)

end MemberSelector

end ServiceModel
