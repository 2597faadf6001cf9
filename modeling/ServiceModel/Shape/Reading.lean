import ServiceModel.Shape.Basic
import ServiceModel.Traced

/-!
# Reading the contents of a shape

Readers take the parts of a shape definition to typed contents. They check every identifier and
the names of members, and trace the issues they find with paths relative to the node they read. A
value of the wrong type is passed over without an issue: the structural rules report it.
-/
namespace ServiceModel

abbrev Reading (α : Type) := Traced Issue α

namespace Reading
variable {α : Type}

def within (path : Path) (reading : Reading α) : Reading α := reading.relabel (Issue.under path)

def report (finding : Finding) : Reading Unit := Traced.emit [finding.issueAt []]

def token (rule : Rule) (value : Value) : Reading (Option (Token rule)) :=
  match Token.parse rule value with
  | .ok token => pure (some token)
  | .error refusal => do
    report (.badToken refusal)
    return none

/-- A token where a text stands; anything else is passed over. -/
def tokenOfText (rule : Rule) (value : Value) : Reading (Option (Token rule)) :=
  match value with
  | .str _ => token rule value
  | _ => pure none

def reference (node : Value) : Reading (Option Reference) := do
  match ← Traced.lift node.entries? with
  | none => return none
  | some entries =>
    let target := (entries.field? "target").getD .null
    let id ← within [.str "target"] (tokenOfText .absoluteId target)
    return id.map Reference.mk

def memberTrait (key : Key) (value : Value) : Reading (Option (AbsoluteId × Value)) := do
  match ← within [.str "traits", .str key.text] (token .absoluteId key.toValue) with
  | none => return none
  | some id =>
    let value ← Traced.lift value.toPlain
    let value ← Traced.lift value.toFixed
    return some (id, value)

def memberTraits (entries : Entries Value) : Reading (List (AbsoluteId × Value)) := do
  let raw ← Traced.lift ((entries.field? "traits").getD (.map [])).entries?
  let traits ← Traced.each (fun e => memberTrait e.1 e.2) (raw.getD [])
  return traits.filterMap id

def member (node : Value) : Reading (Option Member) := do
  let reference ← reference node
  match ← Traced.lift node.entries? with
  | none => return none
  | some entries =>
    let traits ← memberTraits entries
    return reference.map fun reference => ⟨reference, traits⟩

def references (node : Value) : Reading (Option (List (Option Reference))) :=
  match node with
  | .list items | .tuple items | .pairs items => do
    let found ← Traced.each (fun item => within [.int item.2] (reference item.1)) items.zipIdx
    return some found
  | _ => pure none

def referenceEntry (key : Key) (value : Value) : Reading (Option (String × Option Reference)) :=
  match key with
  | .str name => do
    let found ← within [.str name] (reference value)
    return some (name, found)
  | key => do
    within [.str key.text] (report (.keyNotText key.toValue))
    return none

def referenceMap (node : Value) : Reading (Option (List (String × Option Reference))) := do
  match ← Traced.lift node.entries? with
  | none => return none
  | some entries =>
    let found ← Traced.each (fun e => referenceEntry e.1 e.2) entries
    return some (found.filterMap id)

def memberName (key : Value) : Reading MemberName := do
  match Token.parse .identifier key with
  | .ok name => return .identifier name
  | .error _ =>
    let key ← Traced.lift key.key
    return .other key

def memberEntry (key value : Value) : Reading (MemberName × Option Member) := do
  let found ← within [.str key.text] (member value)
  let name ← memberName key
  return (name, found)

/-- Writes a member under its name; a repeated name keeps its place and takes the new member. -/
def putMember : List (MemberName × Option Member) → MemberName × Option Member →
    List (MemberName × Option Member)
  | [], entry => [entry]
  | (name, found) :: rest, entry =>
    if name.key.same entry.1.key then (name, entry.2) :: rest
    else (name, found) :: putMember rest entry

def memberMap (policy : NamingPolicy) (node : Value) :
    Reading (Option (List (MemberName × Option Member))) := do
  match node.items? with
  | none => return none
  | some items =>
    let entries ← Traced.lift (Value.splitAll items)
    Traced.emit (MemberNames.issues policy (entries.map (·.1)))
    let found ← Traced.each (fun e => memberEntry e.1 e.2) entries
    return some (found.foldl putMember [])

def traitEntry (key : Key) (value : Value) : Reading (Option (ShapeId × Value)) := do
  match ← within [.str key.text] (token .shapeId key.toValue) with
  | none => return none
  | some id =>
    let value ← Traced.lift value.toPlain
    return some (id, value)

def traitMap (node : Value) : Reading (Option (List (ShapeId × Value))) := do
  match ← Traced.lift node.entries? with
  | none => return none
  | some entries =>
    let found ← Traced.each (fun e => traitEntry e.1 e.2) entries
    return some (found.filterMap id)

def identifierEntry (key : Key) (value : Value) : Reading (Option (ShapeId × Identifier)) := do
  let id ← within [.str key.text] (token .shapeId key.toValue)
  let name ← within [.str key.text] (tokenOfText .identifier value)
  match id, name with
  | some id, some name => return some (id, name)
  | _, _ => return none

def identifierMap (node : Value) : Reading (Option (List (ShapeId × Identifier))) := do
  match ← Traced.lift node.entries? with
  | none => return none
  | some entries =>
    let found ← Traced.each (fun e => identifierEntry e.1 e.2) entries
    return some (found.filterMap id)

def content (kind : ContentKind) (node : Value) : Reading (Option Content) :=
  match kind with
  | .text => pure (node.str?.map .text)
  | .reference => do return (← reference node).map .reference
  | .member => do return (← member node).map .member
  | .references => do return (← references node).map .references
  | .referenceMap => do return (← referenceMap node).map (.referenceMap .writable)
  | .memberMap policy => do return (← memberMap policy node).map (.memberMap .writable)
  | .traitMap => do return (← traitMap node).map (.traitMap .writable)
  | .identifierMap => do return (← identifierMap node).map (.identifierMap .writable)

end Reading

end ServiceModel
