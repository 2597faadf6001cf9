import ServiceModel.Shape.Kind
import ServiceModel.Shape.MemberNames
import ServiceModel.Value.Literal

/-!
# The field table

For each type of shape the table lists the fields that a definition of that type may have, in
order, with the kind of content of each and whether it is required. Every type but `apply` also
takes mixins. A field of members comes with the policy for their names.
-/
namespace ServiceModel

inductive ContentKind
  | text
  | reference
  | member
  | references
  | referenceMap
  | memberMap (policy : NamingPolicy)
  | traitMap
  | identifierMap
deriving DecidableEq, Repr

def ContentKind.policy? : ContentKind → Option NamingPolicy
  | .memberMap policy => some policy
  | _ => none

structure Field where
  name : String
  kind : ContentKind
  required : Bool
deriving DecidableEq, Repr

namespace Field

def needed (name : String) (kind : ContentKind) : Field := ⟨name, kind, true⟩

def optional (name : String) (kind : ContentKind) : Field := ⟨name, kind, false⟩

end Field

/-- A value that is the tag of no shape type. -/
structure UnknownType where
  type : Value

def UnknownType.message (unknown : UnknownType) : String :=
  let valid := (Value.list (ShapeType.all.map fun type => .str type.tag)).literal
  s!"Unknown shape type: {Finding.inQuotes unknown.type.text}. Valid types: {valid}"

namespace ShapeType

def ofValue? : Value → Option ShapeType
  | .str tag => ofTag? tag
  | _ => none

def ofValue (type : Value) : Except UnknownType ShapeType :=
  match ofValue? type with
  | some known => .ok known
  | none => .error ⟨type⟩

def fields : ShapeType → List Field
  | .simple _ => []
  | .list => [.needed "member" .member]
  | .map => [.needed "key" .reference, .needed "value" .reference]
  | .struct => [.optional "members" (.memberMap ⟨false, false⟩)]
  | .union => [.needed "members" (.memberMap ⟨true, false⟩)]
  | .enum => [.needed "members" (.memberMap ⟨true, true⟩)]
  | .intEnum => [.needed "members" (.memberMap ⟨true, true⟩)]
  | .service =>
    [.optional "version" .text, .needed "operations" .references, .needed "resources" .references,
      .needed "errors" .references, .needed "traits" .traitMap, .needed "rename" .identifierMap]
  | .resource =>
    [.needed "identifiers" .referenceMap, .needed "properties" .referenceMap,
      .optional "create" .reference, .optional "put" .reference, .optional "read" .reference,
      .optional "update" .reference, .optional "delete" .reference, .optional "list" .reference,
      .needed "operations" .references, .needed "collectionOperations" .references,
      .needed "resources" .references, .needed "traits" .traitMap]
  | .operation =>
    [.needed "input" .reference, .needed "output" .reference, .needed "errors" .references,
      .needed "traits" .traitMap]
  | .apply => [.needed "traits" .identifierMap]

def requiredFields (type : ShapeType) : List String :=
  (type.fields.filter (·.required)).map (·.name)

def allowsMixins : ShapeType → Bool
  | .apply => false
  | _ => true

/-- The policy for the members of shapes of this type, if they have members by name. -/
def namingPolicy? (type : ShapeType) : Option NamingPolicy :=
  type.fields.findSome? (·.kind.policy?)

/-- Only types that share their form with others have to keep their tag. -/
def sharesForm : ShapeType → Bool
  | .simple _ => true
  | .enum => true
  | .intEnum => true
  | _ => false

end ShapeType

end ServiceModel
