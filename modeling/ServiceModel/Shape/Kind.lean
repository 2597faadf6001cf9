/-!
# Shape types

Every shape definition names its type by a tag. Thirteen types are simple; the others describe
aggregates, services and the application of traits.
-/
namespace ServiceModel

inductive SimpleType
  | blob
  | boolean
  | document
  | string
  | byte
  | short
  | integer
  | long
  | float
  | double
  | bigInteger
  | bigDecimal
  | timestamp
deriving DecidableEq, Repr

inductive ShapeType
  | simple (type : SimpleType)
  | list
  | map
  | struct
  | union
  | enum
  | intEnum
  | service
  | resource
  | operation
  | apply
deriving DecidableEq, Repr

namespace SimpleType

def all : List SimpleType :=
  [.blob, .boolean, .document, .string, .byte, .short, .integer, .long, .float, .double,
    .bigInteger, .bigDecimal, .timestamp]

def tag : SimpleType → String
  | .blob => "blob"
  | .boolean => "boolean"
  | .document => "document"
  | .string => "string"
  | .byte => "byte"
  | .short => "short"
  | .integer => "integer"
  | .long => "long"
  | .float => "float"
  | .double => "double"
  | .bigInteger => "bigInteger"
  | .bigDecimal => "bigDecimal"
  | .timestamp => "timestamp"

theorem mem_all (type : SimpleType) : type ∈ all := by cases type <;> decide

end SimpleType

namespace ShapeType

def all : List ShapeType :=
  SimpleType.all.map .simple ++
    [.list, .map, .struct, .union, .enum, .intEnum, .service, .resource, .operation, .apply]

def tag : ShapeType → String
  | .simple type => type.tag
  | .list => "list"
  | .map => "map"
  | .struct => "structure"
  | .union => "union"
  | .enum => "enum"
  | .intEnum => "intEnum"
  | .service => "service"
  | .resource => "resource"
  | .operation => "operation"
  | .apply => "apply"

def ofTag? (tag : String) : Option ShapeType := all.find? (·.tag == tag)

theorem ofTag?_tag (type : ShapeType) : ofTag? type.tag = some type := by
  rcases type with (_ | _ | _ | _ | _ | _ | _ | _ | _ | _ | _ | _ | _) | _ <;> rfl

theorem tag_of_ofTag? {tag : String} {type : ShapeType} (h : ofTag? tag = some type) :
    type.tag = tag := by
  have := List.find?_some h
  simpa using this

end ShapeType

end ServiceModel
