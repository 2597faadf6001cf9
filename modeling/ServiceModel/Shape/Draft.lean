import ServiceModel.Shape.Reading

/-!
# From a definition to a shape

A draft holds what was read of a definition: its mixins and the fields that were present, each
with its content if it had one. A collector gathers the issues of everything read for one shape; a
draft becomes a shape only if the collector holds no issue at all.
-/
namespace ServiceModel

structure Draft where
  type : ShapeType
  mixins : List (Option Reference)
  fields : List (String × Option Content)

namespace Draft

def readMixins (type : ShapeType) (node : Value) : Reading (List (Option Reference)) :=
  if type.allowsMixins then do
    match ← Traced.lift (node.fieldOf? "mixins") with
    | none => return []
    | some value =>
      let found ← Reading.within [.str "mixins"] (Reading.references value)
      return found.getD []
  else pure []

def readField (node : Value) (field : Field) : Reading (Option (String × Option Content)) := do
  match ← Traced.lift (node.fieldOf? field.name) with
  | none => return none
  | some value =>
    match ← Reading.within [.str field.name] (Reading.content field.kind value) with
    | none => return some (field.name, none)
    | some content =>
      let content ← Traced.lift content.toFixed
      return some (field.name, some content)

def read (type : ShapeType) (node : Value) : Reading Draft := do
  let mixins ← readMixins type node
  let fields ← Traced.each (readField node) type.fields
  return ⟨type, mixins, fields.filterMap id⟩

/-- The first required field that was not present. -/
def absent? (draft : Draft) : Option String :=
  draft.type.requiredFields.find? fun name => !draft.fields.any (·.1 == name)

def toShape (draft : Draft) : Except Fault Shape :=
  match draft.absent? with
  | some name => .error (.fieldNeverRead name)
  | none =>
    .ok ⟨draft.type, draft.mixins, draft.fields.filterMap fun (name, content) =>
      content.map fun content => (name, content)⟩

end Draft

/-- The issues of everything read so far for the shape at a path. -/
structure Collector where
  path : Path
  issues : List Issue

namespace Collector
variable {α : Type}

def take (collector : Collector) (path : Path) (reading : Reading α) : Collector × Except Fault α :=
  (⟨collector.path, collector.issues ++ reading.trace.map (.under path)⟩, reading.outcome)

/-- Reads a definition at the path of the collector, and makes a shape if there is no issue. -/
def finish (collector : Collector) (type : ShapeType) (node : Value) :
    Collector × Except Fault (Option Shape) :=
  let (collector, outcome) := collector.take collector.path (Draft.read type node)
  (collector, do
    let draft ← outcome
    if collector.issues.isEmpty then return some (← draft.toShape) else return none)

theorem issues_take (collector : Collector) (path : Path) (reading : Reading α) :
    (collector.take path reading).1.issues = collector.issues ++ reading.trace.map (.under path) :=
  rfl

end Collector

end ServiceModel
