import ServiceModel.Issue.Order
import ServiceModel.Shape.JsonSchema
import ServiceModel.Value.Normal

/-!
# The structural pass

A plain definition is held against the schema of its type. Its breaches are put in the order of
their nodes, and each becomes complaints: a breach of the required fields is a complaint about every
field that is missing, a breach of the ban on other fields one about every field in excess. Two
fields that are missing are two breaches and so four complaints; of the issues of one kind at one
path only the first is kept.
-/
namespace ServiceModel

namespace JsonSchema

/-- What is found where a demand is not met, with the token below the node if there is one. -/
def Demand.findings : Demand → List (List Value × Finding)
  | .type value expected => [([], .wrongType value expected)]
  | .const value text => [([], .wrongTag value text)]
  | .required object names =>
    (absent object names).map fun name => ([.str name], .fieldMissing name)
  | .noOthers object known =>
    (extra object known).map fun e => ([e.1.toValue], .fieldUnexpected e.1.toValue)

def Breach.complaints (b : Breach) : List Complaint :=
  b.demand.findings.map fun found => ⟨b.node, found.1, found.2⟩

end JsonSchema

namespace ShapeType
variable [Visiting]

/-- The complaints about the form of a plain shape definition, in order, repeated ones included. -/
def complaints (type : ShapeType) (node : Value) : List Complaint :=
  (Path.sortBy (·.node) ((JsonSchema.ofShapeType type).breaches node)).flatMap (·.complaints)

/-- Everything wrong with the form of a plain shape definition, in order. -/
def structuralIssues (type : ShapeType) (node : Value) : List Issue :=
  Issue.firsts ((type.complaints node).map Complaint.issue)

/-- The structural issues of a definition at a path. Issues are told apart by their paths, so if
there are any, the tokens of the path have to be keys. -/
def structuralIssuesAt (type : ShapeType) (path : Path) (node : Value) :
    Except Fault (List Issue) :=
  let issues := type.structuralIssues node
  if issues.isEmpty || path.all (·.toKey?.isSome) then .ok (issues.map (.under path))
  else .error .unhashable

end ShapeType

end ServiceModel
