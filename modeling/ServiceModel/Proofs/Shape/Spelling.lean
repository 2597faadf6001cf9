import ServiceModel.Proofs.Shape.Names
import ServiceModel.Proofs.Value.Fixed
import ServiceModel.Shape.Basic

/-!
# Spelling

A value spells a token, a reference, a content or a shape when it is one of the forms in which that
can be written down. Many values spell the same shape: mappings and sequences may be fixed or not,
fields come in any order, members may be listed as pairs, and an empty list of mixins or mapping of
traits may be written or left out.
-/
namespace ServiceModel

namespace Token
variable {rule : Rule}

def Accepted (token : Token rule) : Prop := parse rule (.str token.text) = .ok token

def SpelledBy (token : Token rule) (value : Value) : Prop :=
  value = .str token.text ∧ token.Accepted

theorem accepted_iff {token : Token rule} :
    token.Accepted ↔ rule.accepts token.text.toList = true := by
  by_cases h : rule.accepts token.text.toList = true <;> simp [Accepted, parse, read?, h]

theorem parse_eq_ok_iff {value : Value} {token : Token rule} :
    parse rule value = .ok token ↔ token.SpelledBy value := by
  constructor
  · intro h
    unfold parse at h
    split at h
    · split at h
      · rename_i text _ found hf
        cases h
        obtain ⟨rfl, ha⟩ := read?_eq_some_iff.mp hf
        exact ⟨rfl, accepted_iff.mpr ha⟩
      · cases h
    · cases h
  · rintro ⟨rfl, h⟩
    exact h

end Token

namespace Entries
variable {rule : Rule} {α : Type}

/-- Each entry spells what is listed in its place: its key a token, its value as `R` says. -/
def Spell (R : Value → α → Prop) (es : Entries Value) (listed : List (Token rule × α)) : Prop :=
  List.Forall₂ (fun e x => e.1 = .str x.1.text ∧ x.1.Accepted ∧ R e.2 x.2) es listed

end Entries

namespace Reference

structure SpelledIn (reference : Reference) (es : Entries Value) : Prop where
  target : es.field? "target" = some (.str reference.target.text)
  accepted : reference.target.Accepted
  known : ∀ e ∈ es, e.1 = .str "target"

def SpelledBy (reference : Reference) (value : Value) : Prop :=
  ∃ es, value.Maps es ∧ reference.SpelledIn es

/-- The entry spells a reference under its name. -/
def SpelledAt (e : Key × Value) (x : String × Option Reference) : Prop :=
  e.1 = .str x.1 ∧ ∃ r, x.2 = some r ∧ r.SpelledBy e.2

/-- The value is a sequence that spells these references, none of them missing. -/
def Listed (references : List (Option Reference)) (value : Value) : Prop :=
  ∃ items, value.Items items ∧
    List.Forall₂ (fun item found => ∃ r, found = some r ∧ r.SpelledBy item) items references

end Reference

namespace Member

inductive TraitsSpelledIn (es : Entries Value) : List (AbsoluteId × Value) → Prop
  | absent (h : es.field? "traits" = none) : TraitsSpelledIn es []
  | present {value : Value} {ts : Entries Value} {traits : List (AbsoluteId × Value)}
    (h : es.field? "traits" = some value) (hm : value.Maps ts)
    (hs : ts.Spell Value.Settles traits) :
    TraitsSpelledIn es traits

structure SpelledIn (member : Member) (es : Entries Value) : Prop where
  target : es.field? "target" = some (.str member.reference.target.text)
  accepted : member.reference.target.Accepted
  traits : TraitsSpelledIn es member.traits
  known : ∀ e ∈ es, e.1 = .str "target" ∨ e.1 = .str "traits"

def SpelledBy (member : Member) (value : Value) : Prop :=
  ∃ es, value.Maps es ∧ member.SpelledIn es

/-- The entry spells a member under its name. -/
def SpelledAt (e : Key × Value) (x : MemberName × Option Member) : Prop :=
  ∃ name m, e.1 = .str name ∧ x = (.identifier ⟨name⟩, some m) ∧ m.SpelledBy e.2

end Member

namespace Content

inductive SpelledBy : Content → ContentKind → Value → Prop
  | text (s : String) : SpelledBy (.text s) .text (.str s)
  | reference {reference : Reference} {value : Value} (h : reference.SpelledBy value) :
    SpelledBy (.reference reference) .reference value
  | member {member : Member} {value : Value} (h : member.SpelledBy value) :
    SpelledBy (.member member) .member value
  | references {references : List (Option Reference)} {value : Value}
    (h : Reference.Listed references value) : SpelledBy (.references references) .references value
  | referenceMap {value : Value} {es : Entries Value} {entries : List (String × Option Reference)}
    (hm : value.Maps es) (h : List.Forall₂ Reference.SpelledAt es entries) :
    SpelledBy (.referenceMap .readOnly entries) .referenceMap value
  | memberMap {policy : NamingPolicy} {value : Value} {es : Entries Value}
    {entries : List (MemberName × Option Member)} (hl : value.Lists es)
    (ha : MemberNames.Admits policy (entries.map (·.1.text)))
    (h : List.Forall₂ Member.SpelledAt es entries) :
    SpelledBy (.memberMap .readOnly entries) (.memberMap policy) value
  | traitMap {value : Value} {es : Entries Value} {traits : List (ShapeId × Value)}
    (hm : value.Maps es) (h : es.Spell Value.Settles traits) :
    SpelledBy (.traitMap .readOnly traits) .traitMap value
  | identifierMap {value : Value} {es : Entries Value} {entries : List (ShapeId × Identifier)}
    (hm : value.Maps es) (h : es.Spell (fun v (name : Identifier) => name.SpelledBy v) entries) :
    SpelledBy (.identifierMap .readOnly entries) .identifierMap value

end Content

inductive Field.SpelledIn (field : Field) (es : Entries Value) : Option Content → Prop
  | absent (h : es.field? field.name = none) (ho : field.required = false) : SpelledIn field es none
  | present {value : Value} {content : Content} (h : es.field? field.name = some value)
    (hc : content.SpelledBy field.kind value) : SpelledIn field es (some content)

theorem Field.SpelledIn.content {field : Field} {es : Entries Value} {o : Option Content}
    (h : field.SpelledIn es o) {value : Value} (hv : es.field? field.name = some value) :
    ∃ c, o = some c ∧ c.SpelledBy field.kind value := by
  cases h with
  | absent hn _ =>
    rw [hn] at hv
    cases hv
  | present hv' hc =>
    obtain rfl := Option.some.inj (hv'.symm.trans hv)
    exact ⟨_, rfl, hc⟩

theorem Field.SpelledIn.value_of_required {field : Field} {es : Entries Value} {o : Option Content}
    (h : field.SpelledIn es o) (hr : field.required = true) :
    ∃ value, es.field? field.name = some value := by
  cases h with
  | absent _ ho =>
    rw [ho] at hr
    cases hr
  | present hv _ => exact ⟨_, hv⟩

namespace ShapeType

/-- The names of all fields that a definition of this type may have, in the order of writing. -/
def names (type : ShapeType) : List String :=
  "type" :: (if type.allowsMixins then ["mixins"] else []) ++ type.fields.map (·.name)

theorem nodup_names (type : ShapeType) : type.names.Nodup := by
  rcases type with (_ | _ | _ | _ | _ | _ | _ | _ | _ | _ | _ | _ | _) | _ <;> decide

theorem mem_names_iff {type : ShapeType} {name : String} : name ∈ type.names ↔ name = "type" ∨
    (name = "mixins" ∧ type.allowsMixins = true) ∨ ∃ field ∈ type.fields, name = field.name := by
  cases h : type.allowsMixins <;> simp [names, h, eq_comm]

theorem name_ne_of_mem_fields {type : ShapeType} {field : Field} (h : field ∈ type.fields) :
    field.name ≠ "type" ∧ field.name ≠ "mixins" := by
  revert field
  rcases type with (_ | _ | _ | _ | _ | _ | _ | _ | _ | _ | _ | _ | _) | _ <;> decide

theorem allowsMixins_of_mem_names {type : ShapeType} (h : "mixins" ∈ type.names) :
    type.allowsMixins = true := by
  rcases mem_names_iff.mp h with ht | ⟨-, ha⟩ | ⟨field, hf, hn⟩
  · simp at ht
  · exact ha
  · exact absurd hn.symm (name_ne_of_mem_fields hf).2

/-- The only field of member kind is `member`, the only field of members by name is `members`. -/
theorem kind_of_mem_fields {type : ShapeType} {field : Field} (h : field ∈ type.fields) :
    match field.kind with
    | .member => field.name = "member"
    | .memberMap _ => field.name = "members"
    | _ => field.name ≠ "member" ∧ field.name ≠ "members" := by
  revert field
  rcases type with (_ | _ | _ | _ | _ | _ | _ | _ | _ | _ | _ | _ | _) | _ <;>
    simp [fields, Field.needed, Field.optional]

end ShapeType

namespace Shape

inductive MixinsSpelledIn (es : Entries Value) : List (Option Reference) → Prop
  | absent (h : es.field? "mixins" = none) : MixinsSpelledIn es []
  | present {value : Value} {mixins : List (Option Reference)}
    (h : es.field? "mixins" = some value) (hl : Reference.Listed mixins value) :
    MixinsSpelledIn es mixins

theorem MixinsSpelledIn.listed {es : Entries Value} {mixins : List (Option Reference)}
    (h : MixinsSpelledIn es mixins) {value : Value} (hv : es.field? "mixins" = some value) :
    Reference.Listed mixins value := by
  cases h with
  | absent hn =>
    rw [hn] at hv
    cases hv
  | present hv' hl =>
    obtain rfl := Option.some.inj (hv'.symm.trans hv)
    exact hl

structure SpelledIn (shape : Shape) (es : Entries Value) : Prop where
  type : es.field? "type" = some (.str shape.type.tag)
  known : ∀ e ∈ es, ∃ name ∈ shape.type.names, e.1 = .str name
  mixins : MixinsSpelledIn es shape.mixins
  fields : ∀ field ∈ shape.type.fields, field.SpelledIn es (shape.field? field.name)
  /-- There are contents of fields of the table only, in the order of the table. -/
  ordered : shape.fields = shape.type.fields.filterMap fun field =>
    (shape.field? field.name).map fun content => (field.name, content)

def SpelledBy (shape : Shape) (value : Value) : Prop := ∃ es, value.Maps es ∧ shape.SpelledIn es

end Shape

end ServiceModel
