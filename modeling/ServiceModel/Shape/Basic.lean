import ServiceModel.Shape.Table
import ServiceModel.Value.Normal

/-!
# Shapes

A shape is a definition that has been read: its type, its mixins and the contents of its fields,
in the order of the field table. A field that is absent, or that held nothing readable, has no
content. Where the structural rules were checked first, neither happens to a required field, and
no element of a list or a map of references is missing.
-/
namespace ServiceModel

structure Reference where
  target : AbsoluteId
deriving DecidableEq

/-- A reference together with the traits that are attached to it. -/
structure Member where
  reference : Reference
  traits : List (AbsoluteId × Value)
deriving DecidableEq

/-- The key of a member: an identifier, or whatever else was written there. -/
inductive MemberName
  | identifier (name : Identifier)
  | other (key : Key)
deriving DecidableEq

namespace MemberName

def key : MemberName → Key
  | .identifier name => .str name.text
  | .other key => key

def text : MemberName → String
  | .identifier name => name.text
  | .other key => key.text

end MemberName

/-- Whether a mapping can still be changed. -/
inductive Access
  | writable
  | readOnly
deriving DecidableEq, Repr

inductive Content
  | text (text : String)
  | reference (reference : Reference)
  | member (member : Member)
  | references (references : List (Option Reference))
  | referenceMap (access : Access) (entries : List (String × Option Reference))
  | memberMap (access : Access) (entries : List (MemberName × Option Member))
  | traitMap (access : Access) (entries : List (ShapeId × Value))
  | identifierMap (access : Access) (entries : List (ShapeId × Identifier))
deriving DecidableEq

structure Shape where
  type : ShapeType
  mixins : List (Option Reference)
  fields : List (String × Content)
deriving DecidableEq

namespace Shape

def field? (shape : Shape) (name : String) : Option Content :=
  (shape.fields.find? (·.1 == name)).map (·.2)

end Shape

namespace Content

/-- Makes a mapping read-only, and the values of traits fixed. The other contents can never be
changed, and neither can references and members inside a mapping. -/
def toFixed : Content → Except Fault Content
  | .referenceMap _ entries => .ok (.referenceMap .readOnly entries)
  | .memberMap _ entries => .ok (.memberMap .readOnly entries)
  | .traitMap _ entries => do
    let entries ← entries.mapM fun (id, value) => do return (id, ← value.toFixed)
    return .traitMap .readOnly entries
  | .identifierMap _ entries => .ok (.identifierMap .readOnly entries)
  | content => .ok content

end Content

end ServiceModel
