import ServiceModel.Issue.Finding
import ServiceModel.Value.Mapping

/-!
# The shape definitions of a document

The entries of the shapes mapping become one mapping from shape ids to definitions. A shape id
that is defined more than once is reported once, with the number of its definitions; the last one
counts.
-/
namespace ServiceModel.Definitions

def repeatedIssues (keys : List Key) : List Issue :=
  ((Entries.count keys).filter fun e => e.2 > 1).map fun e =>
    (Finding.shapeIdRepeated e.1.toValue e.2).issueAt [.str e.1.text]

/-- The definitions under their ids, with the issues about repeated ids at a path. -/
def collect (shapes : Value) (path : Path) : Except Fault (Entries Value × List Issue) := do
  let entries ← Value.keyedEntries (← shapes.itemsOrParts)
  return (Entries.ofList entries, (repeatedIssues (entries.map (·.1))).map (.under path))

end ServiceModel.Definitions
