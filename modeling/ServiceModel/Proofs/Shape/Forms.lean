import ServiceModel.Proofs.Shape.Rules
import ServiceModel.Proofs.Value.Nodes

/-!
# Forms and their violations

A form says of a value which type of data it is, and of an object which fields it has, some of them
required, and no others; for a list or a mapping it says the same of what is held. The field table
gives each type of shape a form.

A violation of a form is told by the place in the value where it is found, not by the order in which
a check comes to it. The complaints of a check are the violations of its form, each once.
-/
namespace ServiceModel

inductive Form
  | data (type : DataType)
  | tag (expected : String)
  | record (fields : List (String × Form)) (required : List String)
  | listOf (item : Form)
  | mapOf (value : Form)

/-- The kind of a violation, the object that is at fault and the token below the object if there is
one. Entries under keys that are not equal even to themselves are told apart by their positions. -/
structure Violation where
  positions : List Nat
  object : Path
  token : List Value
  kind : Issue.Kind

def Violation.under (position : Nat) (token : Value) (x : Violation) : Violation :=
  { x with positions := position :: x.positions, object := token :: x.object }

namespace Form

theorem induction {P : Form → Prop} (data : ∀ type, P (.data type))
    (tag : ∀ expected, P (.tag expected))
    (record : ∀ fields required, (∀ f ∈ fields, P f.2) → P (.record fields required))
    (listOf : ∀ item, P item → P (.listOf item)) (mapOf : ∀ value, P value → P (.mapOf value))
    (form : Form) : P form := by
  refine Form.rec (motive_1 := P) (motive_2 := fun fields => ∀ f ∈ fields, P f.2)
    (motive_3 := fun f => P f.2) data tag (fun fields required => record fields required) listOf
    mapOf (by simp) (fun f rest hf hr => List.forall_mem_cons.mpr ⟨hf, hr⟩) (fun _ _ h => h) form

/-- What violates a form. A value of the wrong type is not looked into. -/
inductive Violates : Form → Value → Violation → Prop
  | wrongType {type : DataType} {value : Value} (h : JsonSchema.hasType type value = false) :
    Violates (.data type) value ⟨[], [], [], .invalidValueType⟩
  | wrongTag {expected : String} {value : Value} (h : value ≠ .str expected) :
    Violates (.tag expected) value ⟨[], [], [], .invalidValueType⟩
  | noObject {fields : List (String × Form)} {required : List String} {value : Value}
    (h : ∀ es, value ≠ .map es) :
    Violates (.record fields required) value ⟨[], [], [], .invalidValueType⟩
  | missing {fields : List (String × Form)} {required : List String} {es : Entries Value}
    {name : String} (h : name ∈ required) (absent : es.field? name = none) :
    Violates (.record fields required) (.map es) ⟨[], [], [.str name], .missingRequiredField⟩
  | unexpected {fields : List (String × Form)} {required : List String} {es : Entries Value}
    {n : Nat} {e : Key × Value} (h : es[n]? = some e) (unknown : ∀ f ∈ fields, e.1 ≠ .str f.1) :
    Violates (.record fields required) (.map es) ⟨[n], [], [e.1.toValue], .unexpectedField⟩
  | inField {fields : List (String × Form)} {required : List String} {es : Entries Value}
    {f : String × Form} {value : Value} {x : Violation} (h : f ∈ fields)
    (found : es.field? f.1 = some value) (below : Violates f.2 value x) :
    Violates (.record fields required) (.map es) (x.under 0 (.str f.1))
  | noList {item : Form} {value : Value} (h : ∀ items, value ≠ .list items) :
    Violates (.listOf item) value ⟨[], [], [], .invalidValueType⟩
  | inItem {item : Form} {items : List Value} {n : Nat} {value : Value} {x : Violation}
    (h : items[n]? = some value) (below : Violates item value x) :
    Violates (.listOf item) (.list items) (x.under n (.int n))
  | noMap {form : Form} {value : Value} (h : ∀ es, value ≠ .map es) :
    Violates (.mapOf form) value ⟨[], [], [], .invalidValueType⟩
  | inEntry {form : Form} {es : Entries Value} {n : Nat} {e : Key × Value} {x : Violation}
    (h : es[n]? = some e) (below : Violates form e.2 x) :
    Violates (.mapOf form) (.map es) (x.under n e.1.toValue)

/-- A mapping whose entries the form asks about has an entry under the null key. -/
inductive NullKeyed : Form → Value → Prop
  | here {form : Form} {es : Entries Value} {e : Key × Value} (h : e ∈ es)
    (null : e.1 = .scalar .null) : NullKeyed (.mapOf form) (.map es)
  | inEntry {form : Form} {es : Entries Value} {e : Key × Value} (h : e ∈ es)
    (below : NullKeyed form e.2) : NullKeyed (.mapOf form) (.map es)
  | inItem {item : Form} {items : List Value} {value : Value} (h : value ∈ items)
    (below : NullKeyed item value) : NullKeyed (.listOf item) (.list items)
  | inField {fields : List (String × Form)} {required : List String} {es : Entries Value}
    {f : String × Form} {value : Value} (h : f ∈ fields) (found : es.field? f.1 = some value)
    (below : NullKeyed f.2 value) : NullKeyed (.record fields required) (.map es)

section
variable [Visiting]

mutual

def check : Form → Check
  | .data type => Check.ofType type
  | .tag expected => Check.tag expected
  | .record fields required => Check.record (checks fields) required
  | .listOf item => Check.arrayOf (check item)
  | .mapOf value => Check.mapOf (check value)

def checks : List (String × Form) → List (String × Check)
  | [] => []
  | (name, form) :: rest => (name, check form) :: checks rest

end

theorem checks_eq_map (fields : List (String × Form)) :
    checks fields = fields.map fun f => (f.1, f.2.check) := by
  induction fields with
  | nil => rfl
  | cons f rest ih => rw [checks, ih, List.map_cons]

end

/-! The forms of the field table. -/

def reference : Form := .record [("target", .data .string)] ["target"]

def member : Form :=
  .record [("target", .data .string), ("traits", .data .object)] ["target"]

def ofKind : ContentKind → Form
  | .text => .data .string
  | .reference => reference
  | .member => member
  | .references => .listOf reference
  | .referenceMap => .mapOf reference
  | .memberMap _ => .mapOf member
  | .traitMap => .data .object
  | .identifierMap => .mapOf (.data .string)

def ofShapeType (type : ShapeType) : Form :=
  let mixins := if type.allowsMixins then [("mixins", ofKind .references)] else []
  let fields := type.fields.map fun field => (field.name, ofKind field.kind)
  .record (("type", .tag type.tag) :: mixins ++ fields) ("type" :: type.requiredFields)

theorem check_ofKind [Visiting] (kind : ContentKind) : (ofKind kind).check = Check.ofKind kind := by
  cases kind <;> rfl

theorem check_ofShapeType [Visiting] (type : ShapeType) :
    (ofShapeType type).check = Check.ofShapeType type := by
  have fields : (type.fields.map fun field => (field.name, ofKind field.kind)).map
      (fun f => (f.1, f.2.check)) =
        type.fields.map fun field => (field.name, Check.ofKind field.kind) := by
    rw [List.map_map]
    exact List.map_congr_left fun field _ => Prod.ext rfl (check_ofKind field.kind)
  rw [ofShapeType, check, checks_eq_map, List.map_append, fields]
  unfold Check.ofShapeType Check.fields
  cases type.allowsMixins <;> rfl

def isData : Form → Bool
  | .data _ => true
  | _ => false

def isFlat : Form → Bool
  | .data _ => true
  | .record fields _ => fields.all fun f => f.2.isData
  | _ => false

theorem not_nullKeyed_of_isFlat {form : Form} (hf : form.isFlat = true) {value : Value} :
    ¬ form.NullKeyed value := by
  intro h
  cases h with
  | here => cases hf
  | inEntry => cases hf
  | inItem => cases hf
  | @inField fields required es f v hmem _ below =>
    obtain ⟨name, field⟩ := f
    have data := List.all_eq_true.mp hf _ hmem
    cases below <;> cases data

mutual

/-- No field is listed or required twice, and what a mapping holds is looked into no further than to
the types of the fields it has. -/
def isRegular : Form → Bool
  | .data _ | .tag _ => true
  | .record fields required =>
    decide (fields.map (·.1)).Nodup && decide required.Nodup && areRegular fields
  | .listOf item => isRegular item
  | .mapOf value => isRegular value && value.isFlat

def areRegular : List (String × Form) → Bool
  | [] => true
  | (_, form) :: rest => isRegular form && areRegular rest

end

theorem areRegular_iff (fields : List (String × Form)) :
    areRegular fields = true ↔ ∀ f ∈ fields, f.2.isRegular = true := by
  induction fields with
  | nil => simp [areRegular]
  | cons f rest ih =>
    obtain ⟨name, form⟩ := f
    simp [areRegular, ih]

theorem isRegular_record_iff {fields : List (String × Form)} {required : List String} :
    (Form.record fields required).isRegular = true ↔ (fields.map (·.1)).Nodup ∧ required.Nodup ∧
      ∀ f ∈ fields, f.2.isRegular = true := by
  simp [isRegular, areRegular_iff, and_assoc]

theorem isRegular_ofShapeType (type : ShapeType) : (ofShapeType type).isRegular = true := by
  cases type <;> rfl

end Form

end ServiceModel
