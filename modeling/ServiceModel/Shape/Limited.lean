import ServiceModel.Limits
import ServiceModel.Shape.Parse

/-!
# Parsing a shape definition within limits

What is written and walked through while a definition is parsed: its type, the path, the plain form
of the definition, the values in the messages, and the keys that the paths of the contents are made
of. Each of them may exceed the limits, which ends the parsing. If none does, the definition is
parsed as without limits.
-/
namespace ServiceModel

namespace Value

/-- The entries of a value that is read as one mapping. -/
def fieldsRead (value : Value) : Entries Value :=
  match value.entries? with
  | .ok (some entries) => entries
  | _ => []

/-- The entries of a value that is read entry by entry. -/
def entriesRead (value : Value) : List (Value × Value) :=
  match splitAll (value.items?.getD []) with
  | .ok entries => entries
  | .error _ => []

def keysRead (value : Value) : List Value := value.fieldsRead.map fun e => e.1.toValue

/-- The ids of the traits of a member. -/
def traitKeys (member : Value) : List Value :=
  ((member.fieldsRead.field? "traits").getD (.map [])).keysRead

end Value

/-- The keys that are written while the content of a field is read. -/
def ContentKind.keys : ContentKind → Value → List Value
  | .text, _ | .reference, _ | .references, _ => []
  | .member, value => value.traitKeys
  | .memberMap _, value => value.entriesRead.flatMap fun e => e.1 :: e.2.traitKeys
  | .referenceMap, value | .traitMap, value | .identifierMap, value => value.keysRead

namespace ShapeType

/-- The keys that are written while the contents of a definition are read. -/
def keys (type : ShapeType) (entries : Entries Value) : List Value :=
  type.fields.flatMap fun field =>
    match entries.field? field.name with
    | none => []
    | some value => field.kind.keys value

/-- Walks through a definition whose type is known, and writes what its issues and paths show. -/
def effort [Visiting] (limits : Limits) (type : ShapeType) (entries : Entries Value) :
    Except Fault Unit := do
  limits.walk (.map entries)
  let plain ← (Value.map entries).toPlain
  ((type.complaints plain).flatMap (·.finding.written)).forM limits.write
  (type.keys entries).forM limits.write

end ShapeType

namespace Shape
variable [Visiting]

/-- Writes and walks through whatever the parsing of a definition does. -/
def effort (limits : Limits) (node : Value) (path : Path) : Except Fault Unit := do
  match ← classify node with
  | .error _ => (node.fieldsRead.field? "type").toList.forM limits.write
  | .ok (type, entries) =>
    limits.write (.tuple path)
    type.effort limits entries

/-- Parses a definition as far as the limits let it. -/
def parseLimited (limits : Limits) (node : Value) (path : Path) : Reading (Option Shape) := do
  Traced.lift (effort limits node path)
  parse node path

end Shape

end ServiceModel
