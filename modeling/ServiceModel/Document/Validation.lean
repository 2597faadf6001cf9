import ServiceModel.Document.Definitions
import ServiceModel.Document.Envelope
import ServiceModel.Document.Model
import ServiceModel.Document.Settings
import ServiceModel.Document.Workers
import ServiceModel.Log.Record
import ServiceModel.Shape.Parse

/-!
# Validating a model document

The envelope is checked first, then every shape for itself. Shapes are validated one after another
or by several workers, whose results come in any order; the verdict lists the issues in the order
of the document either way. In fail-fast mode the work ends with the first rejected shape: without
workers the first one of the document, with workers the first one to come in, which is then the
only result.

There is a model exactly if there is no issue. What is done is logged, also by a run that faults.
-/
namespace ServiceModel

structure Verdict where
  model : Option Model
  issues : List Issue

/-- What the validation of one shape found; there is a shape exactly if there is no issue. -/
structure Outcome where
  key : Key
  shape : Option Shape
  issues : List Issue

def Outcome.rejected (outcome : Outcome) : Bool := !outcome.issues.isEmpty

abbrev Run (α : Type) := Traced Log.Record α

namespace Validation

def modelLogger : String := "smithy_ast.models.parsing.model_parser"

def shapeLogger : String := "smithy_ast.models.parsing.shape_parser"

def log (place : Log.Place) (level : Int) (message : String) : Run Unit :=
  Traced.emit [.plain place modelLogger level message]

namespace Place

/-! Where the records are made, as a log line can show it. -/

def parsing : Log.Place := ⟨"parse_shape", 221⟩

def shapeRejected : Log.Place := ⟨"_validate_entry", 184⟩

def repeatedIds : Log.Place := ⟨"validate_model", 261⟩

def started : Log.Place := ⟨"validate_model", 267⟩

def modelRejected : Log.Place := ⟨"validate_model", 282⟩

def modelAccepted : Log.Place := ⟨"validate_model", 287⟩

end Place

def shapesPath : Path := [.str "shapes"]

/-- The record of the parsing of a shape, which is made only if its type is known. -/
def parsingRecords (node : Value) (path : Path) : List Log.Record :=
  match Shape.classify node with
  | .ok (.ok (type, _)) =>
    [.plain Place.parsing shapeLogger Log.Level.debug
      s!"Parsing '{type.tag}' shape at {(Value.tuple path).literal}"]
  | _ => []

def idIssues (key : Key) (path : Path) : List Issue :=
  match Token.parse .absoluteId key.toValue with
  | .ok _ => []
  | .error refusal => [(Finding.badShapeId refusal).issueAt path]

section
variable [Visiting]

def single (key : Key) (node : Value) : Run Outcome := do
  let path := shapesPath ++ [.str key.text]
  Traced.emit (parsingRecords node path)
  let reading := Shape.parse node path
  let shape ← Traced.lift reading.outcome
  let issues := idIssues key path ++ reading.trace
  if issues.isEmpty then return ⟨key, shape, []⟩
  else
    log Place.shapeRejected Log.Level.debug
      s!"Shape '{key.text}' rejected with {issues.length} issue(s)"
    return ⟨key, none, issues⟩

/-- Validates shapes in order, in fail-fast mode up to the first that is rejected. -/
def oneByOne (failFast : Bool) : Entries Value → Run (List Outcome)
  | [] => pure []
  | (key, node) :: rest => do
    let outcome ← single key node
    if failFast && outcome.rejected then return [outcome]
    else
      let more ← oneByOne failFast rest
      return outcome :: more

/-- Validates shapes by workers, in fail-fast mode up to the first rejected one to come in. -/
def byWorkers (failFast : Bool) (order : List Nat) (entries : Entries Value) :
    Run (List Outcome) :=
  Workers.share (fun outcome => failFast && outcome.rejected) order
    (entries.map fun e => single e.1 e.2)

end

def typedShapes (outcomes : List Outcome) : List (AbsoluteId × Shape) :=
  outcomes.filterMap fun outcome => outcome.shape.map fun shape => (⟨outcome.key.text⟩, shape)

def fixedMetadata (document : Entries Value) : Except Fault (Entries Value) := do
  let plain ← ((document.field? "metadata").getD (.map [])).toPlain
  match ← plain.toFixed with
  | .frozen entries => return entries
  | _ => return []

/-- The verdict on a document whose envelope and shapes have been looked at. -/
def conclude (document : Entries Value) (envelope : List Issue) (outcomes : List Outcome) :
    Run Verdict := do
  let issues := envelope ++ outcomes.flatMap (·.issues)
  if issues.isEmpty then
    let metadata ← Traced.lift (fixedMetadata document)
    let version := ((document.field? "smithy").bind Value.str?).getD ""
    let shapes := typedShapes outcomes
    log Place.modelAccepted Log.Level.info s!"Model accepted with {shapes.length} shape(s)"
    return ⟨some ⟨version, metadata, shapes⟩, []⟩
  else
    log Place.modelRejected Log.Level.info s!"Model rejected with {issues.length} issue(s)"
    return ⟨none, issues⟩

def shapes [Visiting] (settings : Settings) (arrival : Schedule) (entries : Entries Value) :
    Run (List Outcome) := do
  let failFast := (Value.bool settings.failFast).text
  let workers := settings.maxWorkers
  log Place.started Log.Level.debug
    s!"Validating {entries.length} shape(s) (fail_fast={failFast}, max_workers={workers})"
  if workers > 1 && entries.length > 1 then
    byWorkers settings.failFast (arrival.order entries.length) entries
  else oneByOne settings.failFast entries

/-- Validates the fields of a document. Without a mapping of shapes, and with shape ids that are
defined more than once, no shape is looked at. -/
def fields [Visiting] (settings : Settings) (arrival : Schedule) (document : Entries Value) :
    Run Verdict := do
  let envelope ← Traced.lift (Envelope.issues document)
  let raw := (document.field? "shapes").getD (.map [])
  if !raw.hasEntries then return ⟨none, envelope⟩
  else
    let (entries, repeated) ← Traced.lift (Definitions.collect raw shapesPath)
    if repeated.isEmpty then
      let outcomes ← shapes settings arrival entries
      conclude document envelope outcomes
    else
      let ids := repeated.filterMap fun issue => issue.values.head?.map Value.text
      let shown := ", ".intercalate ids
      log Place.repeatedIds Log.Level.warning s!"Duplicate shape ids: {shown}"
      return ⟨none, envelope ++ repeated⟩

end Validation

section
variable [Visiting]

/-- Validates a document; the results of workers come in as the schedule says. -/
def validateWith (arrival : Schedule) (settings : Settings) (node : Value) : Run Verdict := do
  match node.items? with
  | none => return ⟨none, [(Finding.documentNotMapping node).issueAt []]⟩
  | some items =>
    let entries ← Traced.lift (Value.keyedEntries items)
    Validation.fields settings arrival (Entries.ofList entries)

/-- Validates a document with workers whose results come in in the order of the document. -/
def validate (settings : Settings) (node : Value) : Run Verdict :=
  validateWith .inOrder settings node

def parseModel (settings : Settings) (node : Value) : Except Fault (Except (List Issue) Model) := do
  let verdict ← (validate settings node).outcome
  match verdict.model with
  | some model => return .ok model
  | none => return .error verdict.issues

end

end ServiceModel
