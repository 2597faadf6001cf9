import ServiceModel.Shape.Basic

/-!
# Shapes as value trees

`Shape.toNode` writes a shape as a plain definition: its tag, its mixins if it has any, then its
contents in the order of the field table. An optional field without content is left out; a
required one cannot be written.
-/
namespace ServiceModel

def Reference.toNode (reference : Reference) : Value :=
  .ofFields [("target", .str reference.target.text)]

namespace Content

def referenceNode : Option Reference → Except Fault Value
  | some found => .ok found.toNode
  | none => .error .nothingToWrite

def referencesNode (found : List (Option Reference)) : Except Fault Value := do
  return .list (← found.mapM referenceNode)

def traitsNode {rule : Rule} (traits : List (Token rule × Value)) : Except Fault Value := do
  let entries ← traits.mapM fun (id, value) => do return (Key.str id.text, ← value.toPlain)
  return .map entries

end Content

def Member.toNode (member : Member) : Except Fault Value := do
  let target := ("target", Value.str member.reference.target.text)
  if member.traits.isEmpty then
    return .ofFields [target]
  else
    let traits ← Content.traitsNode member.traits
    return .ofFields [target, ("traits", traits)]

namespace Content

def memberNode : Option Member → Except Fault Value
  | some found => found.toNode
  | none => .error .nothingToWrite

def toNode : Content → Except Fault Value
  | .text s => .ok (.str s)
  | .reference found => .ok found.toNode
  | .member found => found.toNode
  | .references found => referencesNode found
  | .referenceMap _ entries => do
    let entries ← entries.mapM fun (key, found) => do return (key, ← referenceNode found)
    return .ofFields entries
  | .memberMap _ entries => do
    let entries ← entries.mapM fun (name, found) => do return (name.text, ← memberNode found)
    return .ofFields entries
  | .traitMap _ entries => traitsNode entries
  | .identifierMap _ entries =>
    .ok (.ofFields (entries.map fun (id, name) => (id.text, .str name.text)))

end Content

namespace Shape

/-- The written field, or nothing for an optional field without content. -/
def fieldNode (shape : Shape) (field : Field) : Except Fault (Option (String × Value)) :=
  match shape.field? field.name with
  | some content => do return some (field.name, ← content.toNode)
  | none =>
    if !field.required then .ok none
    else if field.kind = .references then .error .noReferences
    else .error .nothingToWrite

def mixinsNode (shape : Shape) : Except Fault (List (String × Value)) :=
  if shape.mixins.isEmpty then .ok []
  else do return [("mixins", ← Content.referencesNode shape.mixins)]

def toNode (shape : Shape) : Except Fault Value := do
  let fields ← shape.type.fields.mapM shape.fieldNode
  let mixins ← shape.mixinsNode
  return .ofFields (("type", .str shape.type.tag) :: mixins ++ fields.filterMap id)

end Shape

end ServiceModel
