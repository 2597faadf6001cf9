import ServiceModel.Shape.Node

/-!
# Models

An accepted document is a model: the version of the format, the metadata in fixed form, and the
shapes under their absolute ids, in the order of the document.
-/
namespace ServiceModel

structure Model where
  version : String
  metadata : Entries Value
  shapes : List (AbsoluteId × Shape)
deriving DecidableEq

namespace Model

def shapesNode (shapes : List (AbsoluteId × Shape)) : Except Fault Value := do
  let entries ← shapes.mapM fun (id, shape) => do return (id.text, ← shape.toNode)
  return .ofFields entries

/-- The model as a plain document; empty metadata are left out. -/
def toNode (model : Model) : Except Fault Value := do
  let version := ("smithy", Value.str model.version)
  let metadata ← (Value.frozen model.metadata).toPlain
  let shapes ← shapesNode model.shapes
  if model.metadata.isEmpty then return .ofFields [version, ("shapes", shapes)]
  else return .ofFields [version, ("metadata", metadata), ("shapes", shapes)]

end Model

end ServiceModel
