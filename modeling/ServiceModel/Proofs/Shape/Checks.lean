import ServiceModel.Proofs.Correspondence
import ServiceModel.Proofs.Firsts
import ServiceModel.Proofs.Sorting
import ServiceModel.Shape.Structure

/-!
# Schemas as checks

A check complains about each violation of a rule once, in the order in which it comes to it. Checks
are put together as schemas are, and a schema whose objects have no more than one required field
comes to the same complaints as its check.

The schema of a shape type may require several fields, and then a complaint about a missing field is
made once for every field that is missing. Keeping the first issue of each kind at each path undoes
this, and nothing else: the structural issues are those of the check.
-/
namespace ServiceModel

namespace Complaint

def about (finding : Finding) : Complaint := ⟨[], [], finding⟩

def aboutField (token : Value) (finding : Finding) : Complaint := ⟨[], [token], finding⟩

def underKey (key : Key) (c : Complaint) : Complaint :=
  if key = .scalar .null then c else c.under key.toValue

/-- The complaints by their nodes; those about nodes with one text stay in order. -/
def ordered (cs : List Complaint) : List Complaint := Path.sortBy (·.node) cs

theorem ordered_perm (cs : List Complaint) : (ordered cs).Perm cs := Path.sortBy_perm _ cs

end Complaint

abbrev Check := Value → List Complaint

namespace Check
open JsonSchema (hasType)

def ofType (type : DataType) : Check := fun value =>
  if hasType type value then [] else [.about (.wrongType value type)]

theorem ofType_eq_nil_iff (type : DataType) (value : Value) :
    ofType type value = [] ↔ hasType type value = true := by
  unfold ofType
  split <;> simp_all

def tag (expected : String) : Check := fun value =>
  if value.str? == some expected then [] else [.about (.wrongTag value expected)]

def missing (required : List String) (entries : Entries Value) : List Complaint :=
  (required.filter fun name => (entries.field? name).isNone).map fun name =>
    .aboutField (.str name) (.fieldMissing name)

def unexpected (known : List String) (entries : Entries Value) : List Complaint :=
  (entries.filter fun e => !known.any fun name => e.1.same (.str name)).map fun e =>
    .aboutField e.1.toValue (.fieldUnexpected e.1.toValue)

def field (entries : Entries Value) (name : String) (check : Check) : List Complaint :=
  match entries.field? name with
  | some value => (check value).map (.under (.str name))
  | none => []

/-- An object with checked fields, some of them required, and no others. -/
def record (fields : List (String × Check)) (required : List String) : Check
  | .map entries =>
    fields.flatMap (fun f => field entries f.1 f.2) ++ missing required entries
      ++ unexpected (fields.map (·.1)) entries
  | value => ofType .object value

def arrayOf (check : Check) : Check
  | .list items => items.zipIdx.flatMap fun (item, n) => (check item).map (.under (.int n))
  | value => ofType .array value

def mapOf [Visiting] (check : Check) : Check
  | .map entries => (Visiting.order entries).flatMap fun e => (check e.2).map (.underKey e.1)
  | value => ofType .object value

def textKeyed : Check
  | .map entries => (entries.map (·.1.toValue)).flatMap fun key =>
    if hasType .string key then [] else [.about (.wrongType key .string)]
  | value => ofType .object value

def reference : Check := record [("target", ofType .string)] ["target"]

def member : Check := record [("target", ofType .string), ("traits", ofType .object)] ["target"]

section
variable [Visiting]

def ofKind : ContentKind → Check
  | .text => ofType .string
  | .reference => reference
  | .member => member
  | .references => arrayOf reference
  | .referenceMap => mapOf reference
  | .memberMap _ => mapOf member
  | .traitMap => ofType .object
  | .identifierMap => mapOf (ofType .string)

/-- The fields of the table with their checks, after those that definitions of all types have. -/
def fields (type : ShapeType) : List (String × Check) :=
  let mixins := if type.allowsMixins then [("mixins", ofKind .references)] else []
  ("type", tag type.tag) :: mixins ++ type.fields.map fun field => (field.name, ofKind field.kind)

def ofShapeType (type : ShapeType) : Check := record (fields type) ("type" :: type.requiredFields)

end

end Check

namespace JsonSchema

/-! Complaints are handed up as the breaches are that they are made of. -/

theorem complaints_under (token : Value) (b : Breach) :
    (b.under token).complaints = b.complaints.map (Complaint.under token) := by
  simp [Breach.complaints, Breach.under, Complaint.under]

theorem flatMap_complaints_under (token : Value) (bs : List Breach) :
    (bs.map (Breach.under token)).flatMap Breach.complaints =
      (bs.flatMap Breach.complaints).map (Complaint.under token) := by
  simp only [List.flatMap_map, List.map_flatMap, complaints_under]

theorem flatMap_complaints_underKey (key : Key) (bs : List Breach) :
    (bs.map (Breach.underKey key)).flatMap Breach.complaints =
      (bs.flatMap Breach.complaints).map (Complaint.underKey key) := by
  by_cases h : key = .scalar .null
  · have same : Breach.underKey key = id := funext fun b => if_pos h
    have same' : Complaint.underKey key = id := funext fun c => if_pos h
    rw [same, same', List.map_id, List.map_id]
  · have under : Breach.underKey key = Breach.under key.toValue := funext fun b => if_neg h
    have under' : Complaint.underKey key = Complaint.under key.toValue := funext fun c => if_neg h
    rw [under, under', flatMap_complaints_under]

theorem complaints_required (required : List String) (entries : Entries Value) :
    (Breach.here (.required entries required)).complaints = Check.missing required entries := by
  simp [Breach.complaints, Breach.here, Demand.findings, absent, Check.missing,
    Complaint.aboutField]

theorem complaints_noOthers (names : List String) (entries : Entries Value) :
    (if (extra entries names).isEmpty then [] else
      [Breach.here (.noOthers entries names)]).flatMap Breach.complaints =
        Check.unexpected names entries := by
  split
  · rename_i h
    have none : entries.filter (fun e => !names.any fun name => e.1.same (.str name)) = [] :=
      List.isEmpty_iff.mp h
    rw [Check.unexpected, none]
    rfl
  · simp [Breach.complaints, Breach.here, Demand.findings, extra, Check.unexpected,
      Complaint.aboutField]

section
variable [Visiting] {schema : JsonSchema} {check : Check}

/-- What is said about the breaches of a schema. -/
def complaints (schema : JsonSchema) (value : Value) : List Complaint :=
  (schema.breaches value).flatMap Breach.complaints

/-- The schema comes to the complaints of the check. -/
def Says (schema : JsonSchema) (check : Check) : Prop :=
  ∀ value, complaints schema value = check value

theorem says_ofType (type : DataType) : Says (ofType type) (Check.ofType type) := by
  intro value
  simp only [complaints, breaches, ofType, ofKeywords, Keyword.breaches, List.append_nil,
    Check.ofType]
  split <;> rfl

theorem says_const (text : String) : Says [.const text] (Check.tag text) := by
  intro value
  simp only [complaints, breaches, ofKeywords, Keyword.breaches, List.append_nil, Check.tag]
  split <;> rfl

theorem says_arrayOf (h : Says schema check) : Says (arrayOf schema) (Check.arrayOf check) := by
  intro value
  cases value with
  | list items =>
    have visits : (arrayOf schema).breaches (.list items) = items.zipIdx.flatMap fun item =>
        (schema.breaches item.1).map (Breach.under (.int item.2)) := by
      simp [breaches, arrayOf, ofKeywords, Keyword.breaches, hasType]
    rw [complaints, visits, List.flatMap_assoc]
    refine List.flatMap_congr fun item _ => ?_
    rw [flatMap_complaints_under]
    exact congrArg _ (h item.1)
  | _ => rfl

theorem says_mapOf (h : Says schema check) : Says (mapOf schema) (Check.mapOf check) := by
  intro value
  cases value with
  | map entries =>
    have all : extra entries [] = entries := List.filter_eq_self.mpr fun _ _ => rfl
    have visits : (mapOf schema).breaches (.map entries) =
        (Visiting.order entries).flatMap fun e =>
          (schema.breaches e.2).map (Breach.underKey e.1) := by
      simp [breaches, mapOf, known, ofKeywords, Keyword.breaches, hasType, all]
    rw [complaints, visits, List.flatMap_assoc]
    refine List.flatMap_congr fun e _ => ?_
    rw [flatMap_complaints_underKey]
    exact congrArg _ (h e.2)
  | _ => rfl

theorem says_textKeyed :
    Says [.type .object, .propertyNames (ofType .string)] Check.textKeyed := by
  intro value
  cases value with
  | map entries =>
    have key (value : Value) : (ofKeywords (known (ofType .string)) value (ofType .string)).flatMap
        Breach.complaints = Check.ofType .string value := says_ofType .string value
    simp only [complaints, breaches, ofKeywords, Keyword.breaches, hasType, if_true,
      List.append_nil, List.nil_append, List.flatMap_assoc, key, Check.textKeyed, List.flatMap_map]
    rfl
  | _ => rfl

/-! Objects. -/

/-- Schemas for fields that come to the complaints of checks for the same fields. -/
def FieldsSay (fields : List (String × JsonSchema)) (checks : List (String × Check)) : Prop :=
  List.Forall₂ (fun f c => f.1 = c.1 ∧ Says f.2 c.2) fields checks

variable {fields : List (String × JsonSchema)} {checks : List (String × Check)}

theorem complaints_inProperties (h : FieldsSay fields checks) (entries : Entries Value) :
    (inProperties entries fields).flatMap Breach.complaints =
      checks.flatMap fun c => Check.field entries c.1 c.2 := by
  induction h with
  | nil => rfl
  | @cons f c rest others hfc _ ih =>
    obtain ⟨name, schema⟩ := f
    obtain ⟨_, check⟩ := c
    obtain ⟨rfl, hfc⟩ := hfc
    rw [inProperties, List.flatMap_append, ih, List.flatMap_cons, Check.field]
    congr 1
    cases entries.field? name with
    | none => rfl
    | some value => exact (flatMap_complaints_under _ _).trans (congrArg _ (hfc value))

/-- Each field that is missing is a breach, and each breach a complaint about every one of them. -/
theorem complaints_closed (h : FieldsSay fields checks) (required : List String)
    (entries : Entries Value) : complaints (closed fields required) (.map entries) =
      checks.flatMap (fun c => Check.field entries c.1 c.2) ++
        (absent entries required).flatMap (fun _ => Check.missing required entries) ++
          Check.unexpected (checks.map (·.1)) entries := by
  have names : known (closed fields required) = checks.map (·.1) := by
    simpa [known, closed] using h.map_eq fun _ _ hfc => hfc.1
  have keywords : (closed fields required).breaches (.map entries) = inProperties entries fields ++
      (absent entries required).map (fun _ => Breach.here (.required entries required)) ++
        if (extra entries (checks.map (·.1))).isEmpty then [] else
          [Breach.here (.noOthers entries (checks.map (·.1)))] := by
    rw [breaches, names]
    simp [closed, ofKeywords, Keyword.breaches, hasType]
  rw [complaints, keywords, List.flatMap_append, List.flatMap_append, complaints_inProperties h,
    complaints_noOthers, List.flatMap_map]
  simp only [complaints_required]

/-- With one required field there is nothing to repeat. -/
theorem says_closed (h : FieldsSay fields checks) (name : String) :
    Says (closed fields [name]) (Check.record checks [name]) := by
  intro value
  cases value with
  | map entries =>
    have once : (absent entries [name]).flatMap (fun _ => Check.missing [name] entries) =
        Check.missing [name] entries := by
      cases hf : Entries.field? entries name <;> simp [absent, Check.missing, hf]
    rw [complaints_closed h, once, Check.record]
  | _ => rfl

theorem says_reference : Says reference Check.reference :=
  says_closed (.cons ⟨rfl, says_ofType .string⟩ .nil) "target"

theorem says_member : Says member Check.member :=
  says_closed (.cons ⟨rfl, says_ofType .string⟩ (.cons ⟨rfl, says_ofType .object⟩ .nil)) "target"

theorem says_ofKind (kind : ContentKind) : Says (ofKind kind) (Check.ofKind kind) := by
  cases kind with
  | text => exact says_ofType .string
  | reference => exact says_reference
  | member => exact says_member
  | references => exact says_arrayOf says_reference
  | referenceMap => exact says_mapOf says_reference
  | memberMap policy => exact says_mapOf says_member
  | traitMap => exact says_ofType .object
  | identifierMap => exact says_mapOf (says_ofType .string)

theorem fieldsSay (type : ShapeType) :
    FieldsSay (("type", [.const type.tag]) ::
      (if type.allowsMixins then [("mixins", ofKind .references)] else []) ++
        type.fields.map fun field => (field.name, ofKind field.kind)) (Check.fields type) := by
  refine .cons ⟨rfl, says_const type.tag⟩ (List.rel_append ?_ ?_)
  · cases type.allowsMixins with
    | false => exact .nil
    | true => exact .cons ⟨rfl, says_ofKind .references⟩ .nil
  · rw [List.forall₂_map_left_iff, List.forall₂_map_right_iff]
    exact List.forall₂_same.mpr fun field _ => ⟨rfl, says_ofKind field.kind⟩

end

end JsonSchema

namespace Check
variable {entries : Entries Value} {c : Complaint}

theorem node_ne_nil_of_mem_field {name : String} {check : Check}
    (h : c ∈ field entries name check) : c.node ≠ [] := by
  unfold field at h
  split at h
  · obtain ⟨d, -, rfl⟩ := List.mem_map.mp h
    exact List.cons_ne_nil _ _
  · cases h

theorem node_of_mem_missing {required : List String} (h : c ∈ missing required entries) :
    c.node = [] := by
  obtain ⟨name, -, rfl⟩ := List.mem_map.mp h
  rfl

theorem node_of_mem_unexpected {known : List String} (h : c ∈ unexpected known entries) :
    c.node = [] := by
  obtain ⟨e, -, rfl⟩ := List.mem_map.mp h
  rfl

theorem missing_of_absent_nil {required : List String}
    (h : JsonSchema.absent entries required = []) : missing required entries = [] := by
  rw [missing]
  exact (congrArg (List.map _) h).trans List.map_nil

theorem path_of_mem_missing {required : List String} {issue : Issue}
    (h : issue ∈ (missing required entries).map Complaint.issue) :
    ∃ name, issue.path = [.str name] := by
  obtain ⟨c, hc, rfl⟩ := List.mem_map.mp h
  obtain ⟨name, -, rfl⟩ := List.mem_map.mp hc
  exact ⟨name, rfl⟩

end Check

namespace ShapeType
open JsonSchema
variable [Visiting]

theorem complaints_eq (type : ShapeType) (node : Value) :
    type.complaints node = Complaint.ordered ((ofShapeType type).complaints node) := by
  refine Path.flatMap_sortBy (fun b c hc => ?_) _
  obtain ⟨found, -, rfl⟩ := List.mem_map.mp hc
  rfl

/-- Repeated or not, the complaints are those of the check. -/
theorem complaints_subset (type : ShapeType) (node : Value) :
    type.complaints node ⊆ Check.ofShapeType type node := by
  rw [complaints_eq]
  refine List.Subset.trans (Complaint.ordered_perm _).subset ?_
  cases node with
  | map entries =>
    rw [ofShapeType, complaints_closed (fieldsSay type)]
    refine List.append_subset.mpr ⟨List.append_subset.mpr ⟨fun c hc => ?_, fun c hc => ?_⟩,
      List.subset_append_right _ _⟩
    · exact List.mem_append_left _ (List.mem_append_left _ hc)
    · obtain ⟨_, -, hc⟩ := List.mem_flatMap.mp hc
      exact List.mem_append_left _ (List.mem_append_right _ hc)
  | _ => exact List.Subset.refl _

/-- Keeping the first issue of each kind at each path makes up for the complaints that are made
several times over. -/
theorem structuralIssues_eq (type : ShapeType) (node : Value) : type.structuralIssues node =
    Issue.firsts ((Complaint.ordered (Check.ofShapeType type node)).map Complaint.issue) := by
  rw [structuralIssues, complaints_eq]
  cases node with
  | map entries =>
    have below : ∀ c ∈ (Check.fields type).flatMap fun f => Check.field entries f.1 f.2,
        c.node ≠ [] := by
      intro c hc
      obtain ⟨f, -, hc⟩ := List.mem_flatMap.mp hc
      exact Check.node_ne_nil_of_mem_field hc
    rw [ofShapeType, complaints_closed (fieldsSay type), Check.ofShapeType, Check.record,
      List.append_assoc, List.append_assoc, Complaint.ordered, Complaint.ordered,
      Path.sortBy_append_roots below, Path.sortBy_append_roots below]
    · have repeated := Issue.firsts_append_repeated
        (absent entries ("type" :: type.requiredFields))
        (fun h => congrArg (List.map _) (Check.missing_of_absent_nil h))
        (fun _ h => Check.path_of_mem_missing h) []
      simpa [List.map_flatMap] using repeated _
    · intro c hc
      rcases List.mem_append.mp hc with hc | hc
      · exact Check.node_of_mem_missing hc
      · exact Check.node_of_mem_unexpected hc
    · intro c hc
      rcases List.mem_append.mp hc with hc | hc
      · obtain ⟨_, -, hc⟩ := List.mem_flatMap.mp hc
        exact Check.node_of_mem_missing hc
      · exact Check.node_of_mem_unexpected hc
  | _ => rfl

end ShapeType

end ServiceModel
