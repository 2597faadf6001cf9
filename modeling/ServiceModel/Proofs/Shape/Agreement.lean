import ServiceModel.Document.Model
import ServiceModel.Proofs.Value.Reordered

/-!
# Models that agree

Two models agree if they differ in nothing but the order of the entries of their mappings: of the
shapes, of the members and the traits of each shape, and inside metadata and the values of traits.
Lists, as those of mixins and of references, are the same in both. A mapping holds no key twice, so
mappings that agree are equal wherever their values are.
-/
namespace ServiceModel

/-- The second value is the first reordered. So the two are equal, unless the first does not even
equal itself, as no value does that holds an undefined number. -/
structure Value.Agrees (v w : Value) : Prop where
  reordered : v.Reordered w
  equal : v.equal v = true → v.equal w = true

theorem Value.Shuffled.agrees {v w : Value} (h : v.Shuffled w) : v.Agrees w :=
  ⟨h.reordered, h.reordered.equal h.single.wellFormed⟩

structure Member.Agrees (member other : Member) : Prop where
  reference : member.reference = other.reference
  traits : List.RearrangedUnder Value.Agrees member.traits other.traits

namespace Content

inductive Agrees : Content → Content → Prop
  | text (text : String) : Agrees (.text text) (.text text)
  | reference (reference : Reference) : Agrees (.reference reference) (.reference reference)
  | member {member other : Member} (h : member.Agrees other) :
    Agrees (.member member) (.member other)
  | references (references : List (Option Reference)) :
    Agrees (.references references) (.references references)
  | referenceMap {access : Access} {entries others : List (String × Option Reference)}
    (h : entries.Perm others) :
    Agrees (.referenceMap access entries) (.referenceMap access others)
  | memberMap {access : Access} {entries others : List (MemberName × Option Member)}
    (h : List.RearrangedUnder (Option.Rel Member.Agrees) entries others) :
    Agrees (.memberMap access entries) (.memberMap access others)
  | traitMap {access : Access} {entries others : List (ShapeId × Value)}
    (h : List.RearrangedUnder Value.Agrees entries others) :
    Agrees (.traitMap access entries) (.traitMap access others)
  | identifierMap {access : Access} {entries others : List (ShapeId × Identifier)}
    (h : entries.Perm others) :
    Agrees (.identifierMap access entries) (.identifierMap access others)

/-- The contents agree once their traits are fixed. -/
def Settle (content other : Content) : Prop :=
  ∃ fixed fixed', content.toFixed = .ok fixed ∧ other.toFixed = .ok fixed' ∧ fixed.Agrees fixed'

end Content

structure Shape.Agrees (shape other : Shape) : Prop where
  type : shape.type = other.type
  mixins : shape.mixins = other.mixins
  fields : List.Forall₂ (fun x y => x.1 = y.1 ∧ x.2.Agrees y.2) shape.fields other.fields

structure Model.Agrees (model other : Model) : Prop where
  version : model.version = other.version
  metadata : Entries.Rearranged Value.Agrees model.metadata other.metadata
  shapes : List.RearrangedUnder Shape.Agrees model.shapes other.shapes

end ServiceModel
