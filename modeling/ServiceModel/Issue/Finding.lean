import ServiceModel.Issue.Basic
import ServiceModel.Identifier.Token

/-!
# Findings

A finding says what is wrong with a node. It fixes the kind of the issue, its message and its
values; the path comes from where the node was read.
-/
namespace ServiceModel

/-- The three forms of data that a node can be required to have. -/
inductive DataType
  | object
  | array
  | string
deriving DecidableEq, Repr

def DataType.name : DataType → String
  | .object => "object"
  | .array => "array"
  | .string => "string"

inductive Finding
  | badToken (refusal : Refusal)
  | badShapeId (refusal : Refusal)
  | badMemberName (key : Value)
  | badEnumMemberName (key : Value)
  | collidingMembers (keys : List Value)
  | noMembers
  | notAShape (node : Value)
  | typeMissing
  | typeUnknown (type : Value)
  | fieldMissing (name : String)
  | fieldUnexpected (key : Value)
  | wrongType (node : Value) (expected : DataType)
  | wrongTag (node : Value) (expected : String)
  | keyNotText (key : Value)
  | documentNotMapping (node : Value)
  | shapeIdRepeated (key : Value) (count : Nat)

namespace Finding

def kind : Finding → Issue.Kind
  | .badToken _ | .badShapeId _ | .badMemberName _ => .lexical
  | .badEnumMemberName _ => .invalidEnumMemberName
  | .collidingMembers _ => .duplicateMember
  | .noMembers => .emptyMemberSet
  | .notAShape _ | .typeMissing | .typeUnknown _ => .unknownShapeType
  | .fieldMissing _ => .missingRequiredField
  | .fieldUnexpected _ => .unexpectedField
  | .wrongType _ _ | .wrongTag _ _ | .keyNotText _ | .documentNotMapping _ => .invalidValueType
  | .shapeIdRepeated _ _ => .duplicateShapeId

/-- A text between single quotes, whatever it holds. -/
def inQuotes (text : String) : String := "'" ++ text ++ "'"

def message : Finding → String
  | .badToken refusal => s!"{inQuotes refusal.value.text} is not a valid {refusal.rule.name}"
  | .badShapeId refusal =>
    s!"Shape id {inQuotes refusal.value.text} is not a valid {refusal.rule.name}"
  | .badMemberName key =>
    s!"Member name {inQuotes key.text} is not a valid {Rule.identifier.name}"
  | .badEnumMemberName key => s!"Enum member name {inQuotes key.text} must start with a letter"
  | .collidingMembers keys =>
    let names := ", ".intercalate (keys.map fun key => inQuotes key.text)
    s!"Member names collide case-insensitively: {names}"
  | .noMembers => "Member mapping must not be empty"
  | .notAShape _ => "Shape definition must be an object with a 'type' field"
  | .typeMissing => "Shape definition is missing its 'type' field"
  | .typeUnknown type => s!"Unknown shape type {inQuotes type.text}"
  | .fieldMissing name => s!"Missing required field {inQuotes name}"
  | .fieldUnexpected key => s!"Unexpected field {inQuotes key.text}"
  | .wrongType node expected => s!"{node.literal} is not of type {inQuotes expected.name}"
  | .wrongTag _ expected => s!"{(Value.str expected).literal} was expected"
  | .keyNotText key => s!"Mapping key {key.literal} is not a string"
  | .documentNotMapping _ => "Model document must be a mapping/object"
  | .shapeIdRepeated key count => s!"Shape id {inQuotes key.text} is defined {count} times"

/-- The values that the message writes. -/
def written : Finding → List Value
  | .badToken refusal | .badShapeId refusal => [refusal.value]
  | .badMemberName key | .badEnumMemberName key => [key]
  | .collidingMembers keys => keys
  | .typeUnknown type => [type]
  | .fieldUnexpected key | .keyNotText key | .shapeIdRepeated key _ => [key]
  | .wrongType node _ => [node]
  | .noMembers | .notAShape _ | .typeMissing | .fieldMissing _ | .wrongTag _ _
  | .documentNotMapping _ => []

def values : Finding → List Value
  | .badToken refusal | .badShapeId refusal => [refusal.value, .str refusal.rule.name]
  | .badMemberName key => [key, .str Rule.identifier.name]
  | .badEnumMemberName key => [key]
  | .collidingMembers keys => keys
  | .noMembers => []
  | .notAShape node => [node]
  | .typeMissing => []
  | .typeUnknown type => [type]
  | .fieldMissing name => [.str name]
  | .fieldUnexpected key => [key]
  | .wrongType node _ => [node]
  | .wrongTag node _ => [node]
  | .keyNotText key => [key]
  | .documentNotMapping node => [node]
  | .shapeIdRepeated key count => [key, .int count]

def issueAt (finding : Finding) (path : Path) : Issue :=
  ⟨finding.kind, path, finding.message, finding.values⟩

theorem under_issueAt (finding : Finding) (p q : Path) :
    (finding.issueAt q).under p = finding.issueAt (p ++ q) := rfl

end Finding

end ServiceModel
