import ServiceModel.Shape.Complaint
import ServiceModel.Shape.Table
import ServiceModel.Shape.Visiting

/-!
# JSON Schema

A schema is a list of keywords, and each keyword asks something of a value. A keyword about the
parts of an object or of an array has nothing to ask of any other value. A value that does not give
what a keyword asks for breaches it, and is reported with all that the keyword says: one field that
is missing is a breach of the whole list of required fields, and each field that is missing is
another breach of that list.

The field table gives each type of shape a schema.
-/
namespace ServiceModel

namespace JsonSchema

inductive Keyword
  | type (expected : DataType)
  | const (text : String)
  | properties (fields : List (String × List Keyword))
  | required (names : List String)
  /-- An object has no other fields than its properties. -/
  | noOthers
  /-- The schema of all fields that are not among the properties. -/
  | others (schema : List Keyword)
  | items (schema : List Keyword)
  | propertyNames (schema : List Keyword)

end JsonSchema

abbrev JsonSchema := List JsonSchema.Keyword

namespace JsonSchema

/-! The written form. -/

mutual

def Keyword.toField : Keyword → String × Value
  | .type expected => ("type", .str expected.name)
  | .const text => ("const", .str text)
  | .properties fields => ("properties", .map (properties fields))
  | .required names => ("required", .list (names.map .str))
  | .noOthers => ("additionalProperties", .bool false)
  | .others schema => ("additionalProperties", .map (keywords schema))
  | .items schema => ("items", .map (keywords schema))
  | .propertyNames schema => ("propertyNames", .map (keywords schema))

def keywords : List Keyword → Entries Value
  | [] => []
  | keyword :: rest => (.str keyword.toField.1, keyword.toField.2) :: keywords rest

def properties : List (String × List Keyword) → Entries Value
  | [] => []
  | (name, schema) :: rest => (.str name, .map (keywords schema)) :: properties rest

end

def toValue (schema : JsonSchema) : Value := .map (keywords schema)

/-! Breaches. -/

/-- What a value does not give, with the value. -/
inductive Demand
  | type (value : Value) (expected : DataType)
  | const (value : Value) (text : String)
  | required (object : Entries Value) (names : List String)
  | noOthers (object : Entries Value) (known : List String)

structure Breach where
  node : Path
  demand : Demand

namespace Breach

def here (demand : Demand) : Breach := ⟨[], demand⟩

def under (token : Value) (b : Breach) : Breach := { b with node := token :: b.node }

/-- Null stands for no token, so a null key is not named. -/
def underKey (key : Key) (b : Breach) : Breach :=
  if key = .scalar .null then b else b.under key.toValue

end Breach

def hasType : DataType → Value → Bool
  | .object, .map _ => true
  | .array, .list _ => true
  | .string, .str _ => true
  | _, _ => false

/-- The fields that the schema has properties for. -/
def known (schema : JsonSchema) : List String :=
  schema.flatMap fun keyword => match keyword with
    | .properties fields => fields.map (·.1)
    | _ => []

def absent (object : Entries Value) (names : List String) : List String :=
  names.filter fun name => (object.field? name).isNone

def extra (object : Entries Value) (known : List String) : Entries Value :=
  object.filter fun e => !known.any fun name => e.1.same (.str name)

section
variable [Visiting]

mutual

/-- How a value breaches a keyword of a schema with properties for the known fields. -/
def Keyword.breaches (known : List String) (value : Value) : Keyword → List Breach
  | .type expected => if hasType expected value then [] else [.here (.type value expected)]
  | .const text => if value.str? == some text then [] else [.here (.const value text)]
  | .properties fields => match value with
    | .map object => inProperties object fields
    | _ => []
  | .required names => match value with
    | .map object => (absent object names).map fun _ => .here (.required object names)
    | _ => []
  | .noOthers => match value with
    | .map object =>
      if (extra object known).isEmpty then [] else [.here (.noOthers object known)]
    | _ => []
  | .others schema => match value with
    | .map object => (Visiting.order (extra object known)).flatMap fun e =>
      (ofKeywords (JsonSchema.known schema) e.2 schema).map (.underKey e.1)
    | _ => []
  | .items schema => match value with
    | .list items => items.zipIdx.flatMap fun item =>
      (ofKeywords (JsonSchema.known schema) item.1 schema).map (.under (.int item.2))
    | _ => []
  | .propertyNames schema => match value with
    | .map object => object.flatMap fun e =>
      ofKeywords (JsonSchema.known schema) e.1.toValue schema
    | _ => []

def ofKeywords (known : List String) (value : Value) : List Keyword → List Breach
  | [] => []
  | keyword :: rest => keyword.breaches known value ++ ofKeywords known value rest

def inProperties (object : Entries Value) : List (String × List Keyword) → List Breach
  | [] => []
  | (name, schema) :: rest => (match object.field? name with
      | some value => (ofKeywords (JsonSchema.known schema) value schema).map (.under (.str name))
      | none => []) ++ inProperties object rest

end

/-- The breaches of a schema, keyword by keyword. -/
def breaches (schema : JsonSchema) (value : Value) : List Breach :=
  ofKeywords schema.known value schema

end

/-! The schemas of the field table. -/

def ofType (type : DataType) : JsonSchema := [.type type]

/-- An object with these fields, some of them required, and no others. -/
def closed (fields : List (String × JsonSchema)) (required : List String) : JsonSchema :=
  [.type .object, .properties fields, .required required, .noOthers]

def arrayOf (schema : JsonSchema) : JsonSchema := [.type .array, .items schema]

def mapOf (schema : JsonSchema) : JsonSchema := [.type .object, .others schema]

def reference : JsonSchema := closed [("target", ofType .string)] ["target"]

def member : JsonSchema :=
  closed [("target", ofType .string), ("traits", ofType .object)] ["target"]

def ofKind : ContentKind → JsonSchema
  | .text => ofType .string
  | .reference => reference
  | .member => member
  | .references => arrayOf reference
  | .referenceMap => mapOf reference
  | .memberMap _ => mapOf member
  | .traitMap => ofType .object
  | .identifierMap => mapOf (ofType .string)

def ofShapeType (type : ShapeType) : JsonSchema :=
  let mixins := if type.allowsMixins then [("mixins", ofKind .references)] else []
  let fields := type.fields.map fun field => (field.name, ofKind field.kind)
  closed (("type", [.const type.tag]) :: mixins ++ fields) ("type" :: type.requiredFields)

end JsonSchema

end ServiceModel
