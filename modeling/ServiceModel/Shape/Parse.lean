import ServiceModel.Shape.Draft
import ServiceModel.Shape.Structure

/-!
# Parsing a shape definition

A definition is first classified by its tag; one without a known tag is reported and not looked at
any further. Then its form is checked against the field table and its contents are read, and all
issues of both are reported together. There is a shape exactly if there is no issue.
-/
namespace ServiceModel.Shape

/-- The type that a definition names, with its fields, or what is wrong with its tag. -/
def classify (node : Value) : Except Fault (Except Issue (ShapeType × Entries Value)) := do
  match ← node.entries? with
  | none => return .error ((Finding.notAShape node).issueAt [])
  | some entries =>
    match entries.field? "type" with
    | none => return .error (Finding.typeMissing.issueAt [.str "type"])
    | some value =>
      match ShapeType.ofValue? value with
      | none => return .error ((Finding.typeUnknown value).issueAt [.str "type"])
      | some type => return .ok (type, entries)

/-- The shape of a definition at a path, if it has no issue; the issues are traced. -/
def parse [Visiting] (node : Value) (path : Path) : Reading (Option Shape) := do
  match ← Traced.lift (classify node) with
  | .error issue =>
    Traced.emit [issue.under path]
    return none
  | .ok (type, entries) =>
    let plain ← Traced.lift (Value.map entries).toPlain
    let issues ← Traced.lift (type.structuralIssuesAt path plain)
    let (collector, outcome) := Collector.finish ⟨path, issues⟩ type (.map entries)
    ⟨collector.issues, outcome⟩

end ServiceModel.Shape
