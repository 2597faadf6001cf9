import ServiceModel.Issue.Path
import ServiceModel.Value.Equality
import ServiceModel.Fault

/-!
# Issues

An issue reports one violation of the rules of a model: its kind, the path of the node it is
about, a message, and the values the message speaks of. A report writes each issue after a dash.
-/
namespace ServiceModel

inductive Issue.Kind
  | lexical
  | duplicateMember
  | emptyMemberSet
  | invalidEnumMemberName
  | unknownShapeType
  | missingRequiredField
  | unexpectedField
  | invalidValueType
  | duplicateShapeId
deriving DecidableEq, Repr

namespace Issue.Kind

def all : List Issue.Kind :=
  [.lexical, .duplicateMember, .emptyMemberSet, .invalidEnumMemberName, .unknownShapeType,
    .missingRequiredField, .unexpectedField, .invalidValueType, .duplicateShapeId]

def name : Issue.Kind → String
  | .lexical => "LexicalError"
  | .duplicateMember => "DuplicateMemberError"
  | .emptyMemberSet => "EmptyMemberSetError"
  | .invalidEnumMemberName => "InvalidEnumMemberNameError"
  | .unknownShapeType => "UnknownShapeTypeError"
  | .missingRequiredField => "MissingRequiredFieldError"
  | .unexpectedField => "UnexpectedFieldError"
  | .invalidValueType => "InvalidValueTypeError"
  | .duplicateShapeId => "DuplicateShapeIdError"

theorem mem_all (kind : Issue.Kind) : kind ∈ all := by cases kind <;> decide

def ofName (name : String) : Except Fault Issue.Kind :=
  match all.find? (·.name == name) with
  | some kind => .ok kind
  | none => .error (.unknownIssueKind name)

theorem ofName_name (kind : Issue.Kind) : ofName kind.name = .ok kind := by cases kind <;> rfl

end Issue.Kind

structure Issue where
  kind : Issue.Kind
  path : Path
  message : String
  values : List Value
deriving DecidableEq

namespace Issue

/-- The same issue, seen from a node above, from which `path` leads to where its own path begins. -/
def under (path : Path) (issue : Issue) : Issue := { issue with path := path ++ issue.path }

theorem under_nil (issue : Issue) : issue.under [] = issue := rfl

theorem under_under (p q : Path) (issue : Issue) :
    (issue.under q).under p = issue.under (p ++ q) := by
  simp [under]

theorem map_under_under (p q : Path) (issues : List Issue) :
    (issues.map (under q)).map (under p) = issues.map (under (p ++ q)) := by
  rw [List.map_map]
  exact List.map_congr_left fun issue _ => under_under p q issue

def location (issue : Issue) : String := issue.path.location

def pointer (issue : Issue) : String := issue.path.pointer

def text (issue : Issue) : String :=
  let place := if issue.location.isEmpty then "<document>" else issue.location
  s!"{issue.kind.name}: {issue.message} (at {place})"

def line (issue : Issue) : String := "  - " ++ issue.text

def report (issues : List Issue) : String := "\n".intercalate (issues.map line)

/-- The report under a heading; without issues, the heading alone. -/
def rejection (issues : List Issue) (heading : String) : String :=
  if issues.isEmpty then heading else heading ++ ":\n" ++ report issues

def rejectedModel : String := "Model validation failed"

def ofKind (kind : Issue.Kind) (issues : List Issue) : List Issue := issues.filter (·.kind == kind)

def countByKind (issues : List Issue) : List (Issue.Kind × Nat) :=
  let counts := Issue.Kind.all.map fun kind => (kind, (ofKind kind issues).length)
  counts.filter fun entry => entry.2 != 0

def alike (a b : Issue) : Bool := a.kind == b.kind && Value.equalAll a.path b.path

def equal (a b : Issue) : Bool :=
  a.alike b && a.message == b.message && Value.equalAll a.values b.values

/-- The first issue of each kind at each path. -/
def firsts : List Issue → List Issue
  | [] => []
  | issue :: rest => issue :: (firsts rest).filter fun other => !issue.alike other

theorem firsts_pairwise (issues : List Issue) :
    (firsts issues).Pairwise fun a b => a.alike b = false := by
  induction issues with
  | nil => exact .nil
  | cons issue rest ih =>
    refine .cons (fun other h => ?_) (ih.filter _)
    simpa using (List.mem_filter.mp h).2

/-- For each issue the position of the first one that equals it, its own at the latest. -/
def firstEqual (issues : List Issue) : List Nat :=
  issues.zipIdx.map fun (issue, n) => ((issues.take n).findIdx? (·.equal issue)).getD n

end Issue

end ServiceModel
