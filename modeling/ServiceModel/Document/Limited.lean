import ServiceModel.Document.Validation
import ServiceModel.Shape.Limited

/-!
# Validating a model document within limits

What is written and walked through while a document is validated: the fields of the envelope and the
values in its messages, the shape ids that are repeated, the number of workers, and what is done for
each shape that is looked at. In fail-fast mode no shape is looked at after the one that ends the
work. Whatever exceeds the limits ends the validation; if nothing does, the document is validated as
without limits.
-/
namespace ServiceModel

/-- Writes and walks through whatever the check of the envelope does. -/
def Envelope.effort [Visiting] (limits : Limits) (document : Entries Value) :
    Except Fault Unit := do
  document.forM fun e =>
    if e.1.same (.str "shapes") && e.2.hasEntries then .ok () else limits.walk e.2
  ((← complaints document).flatMap (·.finding.written)).forM limits.write

namespace Validation
variable [Visiting]

def entryEffort (limits : Limits) (e : Key × Value) : Except Fault Unit := do
  limits.write e.1.toValue
  Shape.effort limits e.2 (shapesPath ++ [.str e.1.text])

/-- The result of the shape ends the work. -/
def endsWork (settings : Settings) (e : Key × Value) : Bool :=
  match (single e.1 e.2).outcome with
  | .ok outcome => settings.failFast && outcome.rejected
  | .error _ => true

/-- The shapes whose results are taken in, in the order in which they are. -/
def lookedAt (settings : Settings) (arrival : Schedule) (entries : Entries Value) :
    List (Key × Value) :=
  let inTurn := if settings.maxWorkers > 1 && entries.length > 1
    then (arrival.order entries.length).filterMap fun position => entries[position]?
    else entries
  inTurn.take (inTurn.findIdx (endsWork settings) + 1)

/-- Writes and walks through whatever the validation of the fields of a document does. -/
def fieldsEffort (limits : Limits) (settings : Settings) (arrival : Schedule)
    (document : Entries Value) : Except Fault Unit := do
  Envelope.effort limits document
  let raw := (document.field? "shapes").getD (.map [])
  if !raw.hasEntries then return
  else
    let (entries, repeated) ← Definitions.collect raw shapesPath
    (repeated.filterMap (·.values.head?)).forM limits.write
    if repeated.isEmpty then
      limits.write (.int settings.maxWorkers)
      (lookedAt settings arrival entries).forM (entryEffort limits)

def effort (limits : Limits) (settings : Settings) (arrival : Schedule) (node : Value) :
    Except Fault Unit := do
  match node.items? with
  | none => return
  | some items =>
    let entries ← Value.keyedEntries items
    fieldsEffort limits settings arrival (Entries.ofList entries)

end Validation

section
variable [Visiting]

/-- Validates a document as far as the limits let it. -/
def validateLimited (limits : Limits) (arrival : Schedule) (settings : Settings) (node : Value) :
    Run Verdict := do
  Traced.lift (Validation.effort limits settings arrival node)
  validateWith arrival settings node

def parseModelLimited (limits : Limits) (settings : Settings) (node : Value) :
    Except Fault (Except (List Issue) Model) := do
  Validation.effort limits settings .inOrder node
  parseModel settings node

end

end ServiceModel
