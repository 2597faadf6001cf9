import ServiceModel.Shape.Structure

/-!
# The envelope of a model document

A document is a mapping with the version of the format under `smithy`, and possibly `metadata` and
`shapes`. The envelope rules say which fields there are and what type of data each holds; of the
shapes they ask only that they are a mapping.
-/
namespace ServiceModel.Envelope

open JsonSchema in
def schema : JsonSchema :=
  closed
    [("smithy", ofType .string), ("metadata", [.type .object, .propertyNames (ofType .string)]),
      ("shapes", ofType .object)]
    ["smithy"]

/-- What the envelope rules see of a field. -/
def view (key : Key) (value : Value) : Except Fault Value :=
  if key.same (.str "shapes") && value.hasEntries then .ok (.map []) else value.toPlain

/-- The complaints about the envelope, in the order of its rules. -/
def complaints [Visiting] (document : Entries Value) : Except Fault (List Complaint) := do
  let entries ← document.mapM fun (key, value) => do return (key, ← view key value)
  return (schema.breaches (.map entries)).flatMap (·.complaints)

/-- Adds an issue to those before it. A missing field is passed over if one of them has its path. -/
def add (issues : List Issue) (issue : Issue) : List Issue :=
  let covered := issues.any fun other => Value.equalAll other.path issue.path
  if issue.kind = .missingRequiredField ∧ covered then issues else issues ++ [issue]

def issues [Visiting] (document : Entries Value) : Except Fault (List Issue) := do
  return ((← complaints document).map Complaint.issue).foldl add []

end ServiceModel.Envelope
