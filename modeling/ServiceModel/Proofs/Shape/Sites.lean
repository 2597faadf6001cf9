import ServiceModel.Proofs.Identifier.Language
import ServiceModel.Proofs.Shape.Ends

/-!
# Places of identifiers

The places of a definition where an identifier has to stand, in the order in which they are read:
targets, the keys of traits, the names of members. There are none in a value of the wrong type, and
what stands beside a place makes no difference to it. A reader that ends reports exactly the places
where the rule is not met, each of them once.
-/
namespace ServiceModel

namespace Value

/-- The entries of a value that is read as one mapping. -/
def opened : Value → Entries Value
  | .map es | .frozen es => es
  | .pairs items => match byPosition items with
    | .ok es => es
    | .error _ => []
  | _ => []

/-- The items of a value that is read as a sequence. -/
def listed : Value → List Value
  | .list items | .tuple items | .pairs items => items
  | _ => []

/-- The entries of a mapping that is read entry by entry, repeated keys included. -/
def named : Value → List (Value × Value)
  | .map es | .frozen es => es.map fun e => (e.1.toValue, e.2)
  | .pairs items => match splitAll items with
    | .ok entries => entries
    | .error _ => []
  | _ => []

end Value

/-- A value that a rule is for, the place where it is reported and how it is spoken of. -/
structure Site where
  path : Path
  value : Value
  rule : Rule
  subject : String

namespace Site

def under (path : Path) (site : Site) : Site := { site with path := path ++ site.path }

def issue (site : Site) : Issue where
  kind := .lexical
  path := site.path
  message := s!"{site.subject}{Finding.inQuotes site.value.text} is not a valid {site.rule.name}"
  values := [site.value, .str site.rule.name]

/-- The issues about the places where the rule is not met. -/
def reports (sites : List Site) : List Issue :=
  (sites.filter fun site => ¬ site.value.Generated site.rule).map issue

/-! The places in a value of each kind. -/

def key (rule : Rule) (key : Key) : Site := ⟨[.str key.text], key.toValue, rule, ""⟩

/-- A text has to meet the rule; anything else is a matter of its type. -/
def text (rule : Rule) : Value → List Site
  | .str s => [⟨[], .str s, rule, ""⟩]
  | _ => []

def memberName (key : Value) : Site := ⟨[.str key.text], key, .identifier, "Member name "⟩

def inField (es : Entries Value) (name : String) (sites : Value → List Site) : List Site :=
  match es.field? name with
  | some value => (sites value).map (under [.str name])
  | none => []

def target (es : Entries Value) : List Site := inField es "target" (text .absoluteId)

def traitKeys (es : Entries Value) : List Site :=
  inField es "traits" fun traits => traits.opened.map fun e => key .absoluteId e.1

def reference (value : Value) : List Site := target value.opened

def member (value : Value) : List Site := target value.opened ++ traitKeys value.opened

def references (value : Value) : List Site :=
  value.listed.zipIdx.flatMap fun item => (reference item.1).map (under [.int item.2])

/-- What stands under a key that is no text is not read. -/
def referenceEntry (key : Key) (value : Value) : List Site :=
  match key with
  | .str name => (reference value).map (under [.str name])
  | _ => []

def referenceMap (value : Value) : List Site :=
  value.opened.flatMap fun e => referenceEntry e.1 e.2

def memberMap (value : Value) : List Site :=
  value.named.map (fun e => memberName e.1) ++
    value.named.flatMap fun e => (member e.2).map (under [.str e.1.text])

/-- The issue about a key that is no text. -/
def strayKey : Key → List Issue
  | .str _ => []
  | key => [(Finding.keyNotText key.toValue).issueAt [.str key.text]]

def traitMap (value : Value) : List Site := value.opened.map fun e => key .shapeId e.1

def identifierMap (value : Value) : List Site :=
  value.opened.flatMap fun e =>
    key .shapeId e.1 :: (text .identifier e.2).map (under [.str e.1.text])

def ofKind : ContentKind → Value → List Site
  | .text => fun _ => []
  | .reference => reference
  | .member => member
  | .references => references
  | .referenceMap => referenceMap
  | .memberMap _ => memberMap
  | .traitMap => traitMap
  | .identifierMap => identifierMap

/-- The issues about keys of references that are no texts. -/
def strayKeys : ContentKind → Value → List Issue
  | .referenceMap => fun value => value.opened.flatMap fun e => strayKey e.1
  | _ => fun _ => []

def straysInField (es : Entries Value) (field : Field) : List Issue :=
  match es.field? field.name with
  | some value => (strayKeys field.kind value).map (.under [.str field.name])
  | none => []

def straysOfDefinition (type : ShapeType) (es : Entries Value) : List Issue :=
  type.fields.flatMap (straysInField es)

/-- All places of a definition with these fields. -/
def ofDefinition (type : ShapeType) (es : Entries Value) : List Site :=
  (if type.allowsMixins then inField es "mixins" references else []) ++
    type.fields.flatMap fun field => inField es field.name (ofKind field.kind)

/-! Reports of places that are put together. -/

theorem reports_append (sites others : List Site) :
    reports (sites ++ others) = reports sites ++ reports others := by
  rw [reports, List.filter_append, List.map_append]
  rfl

theorem reports_flatMap {α : Type} (items : List α) (f : α → List Site) :
    reports (items.flatMap f) = items.flatMap fun a => reports (f a) := by
  rw [reports, List.filter_flatMap, List.map_flatMap]
  rfl

theorem reports_under (path : Path) (sites : List Site) :
    reports (sites.map (under path)) = (reports sites).map (.under path) := by
  rw [reports, List.filter_map, List.map_map, reports, List.map_map]
  rfl

theorem reports_met {site : Site} (h : site.value.Generated site.rule) : reports [site] = [] := by
  simp [reports, h]

theorem reports_unmet {site : Site} (h : ¬ site.value.Generated site.rule) :
    reports [site] = [site.issue] := by
  simp [reports, h]

theorem reports_cons (site : Site) (rest : List Site) :
    reports (site :: rest) = reports [site] ++ reports rest :=
  reports_append [site] rest

theorem reports_map {α : Type} (items : List α) (f : α → Site) :
    reports (items.map f) = items.flatMap fun a => reports [f a] := by
  rw [← reports_flatMap, List.map_eq_flatMap]

theorem kind_of_mem_reports {sites : List Site} :
    ∀ issue ∈ reports sites, issue.kind = .lexical := by
  intro issue hi
  obtain ⟨site, -, rfl⟩ := List.mem_map.mp hi
  rfl

end Site

namespace Issue

theorem ofKind_append (kind : Kind) (issues others : List Issue) :
    ofKind kind (issues ++ others) = ofKind kind issues ++ ofKind kind others :=
  List.filter_append _ _

theorem ofKind_flatMap {α : Type} (kind : Kind) (items : List α) (f : α → List Issue) :
    ofKind kind (items.flatMap f) = items.flatMap fun a => ofKind kind (f a) :=
  List.filter_flatMap

theorem ofKind_under (kind : Kind) (path : Path) (issues : List Issue) :
    ofKind kind (issues.map (under path)) = (ofKind kind issues).map (under path) :=
  List.filter_map

theorem ofKind_eq_self {kind : Kind} {issues : List Issue}
    (h : ∀ issue ∈ issues, issue.kind = kind) : ofKind kind issues = issues :=
  List.filter_eq_self.mpr fun issue hi => beq_iff_eq.mpr (h issue hi)

theorem ofKind_eq_nil {kind : Kind} {issues : List Issue}
    (h : ∀ issue ∈ issues, issue.kind ≠ kind) : ofKind kind issues = [] :=
  List.filter_eq_nil_iff.mpr fun issue hi => by simpa using h issue hi

end Issue

namespace Value

theorem opened_eq {value : Value} {found : Option (Entries Value)}
    (h : value.entries? = .ok found) : value.opened = found.getD [] := by
  cases value with
  | map es | frozen es =>
    cases h
    rfl
  | pairs items =>
    obtain ⟨es, hes, rfl⟩ := Fault.map_eq_ok_iff.mp h
    rw [opened, hes]
    rfl
  | scalar s | list items | tuple items =>
    cases h
    rfl

theorem opened_of_error {value : Value} {fault : Fault} (h : value.entries? = .error fault) :
    value.opened = [] := by
  cases value with
  | pairs items =>
    cases hes : byPosition items with
    | ok es =>
      rw [entries?, hes] at h
      cases h
    | error fault => rw [opened, hes]
  | _ => cases h

theorem named_eq {value : Value} {items : List Value} {entries : List (Value × Value)}
    (hi : value.items? = some items) (hs : splitAll items = .ok entries) :
    value.named = entries := by
  cases value with
  | map es | frozen es =>
    cases hi
    exact Except.ok.inj ((Reading.splitAll_eq_ok_iff.mpr (keyedEntries_entry es)).symm.trans hs)
  | pairs items =>
    cases hi
    rw [named, hs]
  | scalar s | list items | tuple items => cases hi

theorem named_of_not_hasEntries {value : Value} (h : value.hasEntries = false) :
    value.named = [] := by
  cases value with
  | map es | frozen es | pairs items => cases h
  | _ => rfl

end Value

/-! What the check of names can report. -/

namespace MemberNames
variable {policy : NamingPolicy} {keys : List Value} {key : Value}

theorem kind_of_mem_emptinessIssues :
    ∀ issue ∈ emptinessIssues policy keys, issue.kind = .emptyMemberSet := by
  intro issue hi
  unfold emptinessIssues at hi
  split at hi
  · rw [List.mem_singleton.mp hi]
    rfl
  · cases hi

theorem kind_of_mem_keyIssues : ∀ issue ∈ keyIssues policy key,
    issue.kind = .lexical ∨ issue.kind = .invalidEnumMemberName := by
  intro issue hi
  unfold keyIssues at hi
  split at hi
  · rw [List.mem_singleton.mp hi]
    exact .inl rfl
  · split at hi
    · rw [List.mem_singleton.mp hi]
      exact .inr rfl
    · cases hi

theorem kind_of_mem_collisionIssues :
    ∀ issue ∈ collisionIssues keys, issue.kind = .duplicateMember := by
  intro issue hi
  obtain ⟨group, -, rfl⟩ := List.mem_map.mp hi
  rfl

end MemberNames

/-! What the readers report. -/

namespace Reading
open Traced Site
variable {α β : Type} {value : Value} {es : Entries Value}

theorem trace_within (path : Path) (reading : Reading α) :
    (within path reading).trace = reading.trace.map (.under path) := rfl

theorem trace_lift_bind (outcome : Except Fault α) {f : α → Reading β}
    (quiet : ∀ a, (f a).trace = []) : (lift outcome >>= f).trace = [] :=
  trace_bind_of_quiet quiet

theorem token_trace (rule : Rule) (value : Value) :
    (token rule value).trace = reports [⟨[], value, rule, ""⟩] := by
  unfold token
  by_cases h : value.Generated rule
  · rw [reports_met h]
    obtain ⟨s, rfl, hs⟩ := h
    rw [Token.parse_of_generates rule hs]
    rfl
  · rw [reports_unmet h, Token.parse_of_not_generates h]
    rfl

theorem tokenOfText_trace (rule : Rule) (value : Value) :
    (tokenOfText rule value).trace = reports (text rule value) := by
  rcases value with (_ | _ | _ | _ | s) | _ | _ | _ | _ | _
  case scalar.str => exact token_trace rule _
  all_goals rfl

theorem target_trace (es : Entries Value) : (within [.str "target"]
    (tokenOfText .absoluteId ((es.field? "target").getD .null))).trace = reports (target es) := by
  rw [trace_within, tokenOfText_trace, target, inField]
  cases es.field? "target" with
  | none => rfl
  | some value => rw [reports_under, Option.getD_some]

theorem reference_trace (value : Value) :
    (reference value).trace = reports (Site.reference value) := by
  unfold reference
  cases hf : value.entries? with
  | error fault =>
    rw [Site.reference, Value.opened_of_error hf]
    rfl
  | ok found =>
    rw [Site.reference, Value.opened_eq hf, lift_ok, pure_bind]
    cases found with
    | none => rfl
    | some es => exact (trace_bind_of_quiet fun _ => rfl).trans (target_trace es)

theorem key_trace (rule : Rule) (key : Key) :
    (within [.str key.text] (token rule key.toValue)).trace = reports [Site.key rule key] := by
  rw [trace_within, token_trace, ← reports_under]
  rfl

theorem memberTrait_trace (key : Key) (value : Value) :
    (memberTrait key value).trace =
      (reports [Site.key .absoluteId key]).map (.under [.str "traits"]) := by
  unfold memberTrait
  rw [trace_bind_of_quiet, trace_within, token_trace]
  · rw [← reports_under, ← reports_under]
    rfl
  · intro id
    cases id with
    | none => rfl
    | some id => exact trace_lift_bind _ fun _ => trace_lift_bind _ fun _ => rfl

theorem memberTraits_trace (h : (memberTraits es).Ends) :
    (memberTraits es).trace = reports (traitKeys es) := by
  obtain ⟨raw, hraw, h⟩ := ends_bind_iff.mp h
  have hraw : ((es.field? "traits").getD (.map [])).entries? = .ok raw := hraw
  obtain ⟨found, hfound, -⟩ := ends_bind_iff.mp h
  unfold memberTraits
  rw [hraw, lift_ok, pure_bind, trace_bind_of_quiet fun _ => rfl,
    trace_each (ends_each_iff.mp ⟨found, hfound⟩)]
  simp only [memberTrait_trace]
  rw [← List.map_flatMap, ← reports_map]
  unfold traitKeys inField
  cases ht : es.field? "traits" with
  | none =>
    rw [ht] at hraw
    cases hraw
    rfl
  | some traits =>
    rw [ht, Option.getD_some] at hraw
    dsimp only
    rw [reports_under, Value.opened_eq hraw]

theorem member_trace (h : (member value).Ends) :
    (member value).trace = reports (Site.member value) := by
  obtain ⟨r, hr, h⟩ := ends_bind_iff.mp h
  obtain ⟨found, hf, h⟩ := ends_bind_iff.mp h
  have hf : value.entries? = .ok found := hf
  unfold member
  rw [trace_bind hr, reference_trace, hf, lift_ok, pure_bind, Site.reference, Site.member,
    Value.opened_eq hf, reports_append]
  congr 1
  cases found with
  | none => rfl
  | some es =>
    obtain ⟨traits, ht, -⟩ := ends_bind_iff.mp h
    exact (trace_bind_of_quiet fun _ => rfl).trans (memberTraits_trace ⟨traits, ht⟩)

theorem references_trace (h : (references value).Ends) :
    (references value).trace = reports (Site.references value) := by
  have each : ∀ items : List Value, (Traced.each (fun item : Value × Nat =>
      within [.int item.2] (reference item.1)) items.zipIdx).Ends →
      (some <$> Traced.each (fun item : Value × Nat =>
        within [.int item.2] (reference item.1)) items.zipIdx).trace =
      reports (items.zipIdx.flatMap fun item =>
        (Site.reference item.1).map (under [.int item.2])) := by
    intro items h
    rw [trace_map, trace_each (ends_each_iff.mp h), reports_flatMap]
    refine List.flatMap_congr fun item _ => ?_
    rw [trace_within, reference_trace, reports_under]
  rcases value with _ | items | items | _ | _ | items
  case list => exact each items (ends_map_iff.mp h)
  case tuple => exact each items (ends_map_iff.mp h)
  case pairs => exact each items (ends_map_iff.mp h)
  all_goals rfl

theorem mapping_trace (entry : Key → Value → Reading (Option α))
    (h : (mapping entry value).Ends) :
    (mapping entry value).trace = value.opened.flatMap fun e => (entry e.1 e.2).trace := by
  obtain ⟨found, hf, h⟩ := ends_bind_iff.mp h
  have hf : value.entries? = .ok found := hf
  unfold mapping
  rw [hf, lift_ok, pure_bind, Value.opened_eq hf]
  cases found with
  | none => rfl
  | some es =>
    obtain ⟨os, ho, -⟩ := ends_bind_iff.mp h
    exact (trace_bind_of_quiet fun _ => rfl).trans (trace_each (ends_each_iff.mp ⟨os, ho⟩))

theorem traitMap_trace (h : (traitMap value).Ends) :
    (traitMap value).trace = reports (Site.traitMap value) := by
  rw [Site.traitMap, reports_map]
  refine (mapping_trace traitEntry h).trans (List.flatMap_congr fun e _ => ?_)
  unfold traitEntry
  rw [trace_bind_of_quiet, key_trace]
  intro id
  cases id with
  | none => rfl
  | some id => exact trace_lift_bind _ fun _ => rfl

theorem identifierEntry_trace (key : Key) (value : Value) : (identifierEntry key value).trace =
    reports (Site.key .shapeId key :: (text .identifier value).map (under [.str key.text])) := by
  obtain ⟨id, hid⟩ := token_ends .shapeId key.toValue
  have hid : (within [.str key.text] (token .shapeId key.toValue)).outcome = .ok id := hid
  unfold identifierEntry
  rw [reports_cons, trace_bind hid, trace_bind_of_quiet, key_trace, trace_within, tokenOfText_trace,
    reports_under]
  intro name
  cases id <;> cases name <;> rfl

theorem identifierMap_trace (h : (identifierMap value).Ends) :
    (identifierMap value).trace = reports (Site.identifierMap value) := by
  rw [Site.identifierMap, reports_flatMap]
  refine (mapping_trace identifierEntry h).trans (List.flatMap_congr fun e _ => ?_)
  exact identifierEntry_trace e.1 e.2

/-- What is read of an entry is its reference if the key is a text, and otherwise the key alone. -/
theorem referenceEntry_trace (key : Key) (value : Value) :
    (referenceEntry key value).trace = strayKey key ++ reports (Site.referenceEntry key value) := by
  unfold referenceEntry strayKey Site.referenceEntry
  split
  · rw [trace_bind_of_quiet fun _ => rfl, trace_within, reference_trace, reports_under]
    rfl
  · rename_i hne
    rcases key with (_ | _ | _ | _ | name) | _
    case scalar.str => exact absurd rfl (hne name)
    all_goals rfl

theorem memberEntry_trace {key value : Value} (h : (memberEntry key value).Ends) :
    (memberEntry key value).trace = reports ((Site.member value).map (under [.str key.text])) := by
  obtain ⟨m, hm, -⟩ := ends_bind_iff.mp h
  have ends : (member value).Ends := ⟨m, hm⟩
  unfold memberEntry
  rw [trace_bind_of_quiet, trace_within, member_trace ends, reports_under]
  intro found
  rw [trace_bind_of_quiet fun _ => rfl]
  unfold memberName
  split
  · rfl
  · exact trace_lift_bind _ fun _ => rfl

/-- The names come first, then what is under them. -/
theorem memberMap_trace {policy : NamingPolicy} (h : (memberMap policy value).Ends)
    (hentries : value.hasEntries = true) : (memberMap policy value).trace =
      MemberNames.issues policy (value.named.map (·.1)) ++
        reports (value.named.flatMap fun e => (Site.member e.2).map (under [.str e.1.text])) := by
  rw [← Value.items?_isSome, Option.isSome_iff_exists] at hentries
  obtain ⟨items, hi⟩ := hentries
  unfold memberMap at h ⊢
  rw [hi] at h ⊢
  obtain ⟨entries, hs, h⟩ := ends_bind_iff.mp h
  have hs : Value.splitAll items = .ok entries := hs
  have named : value.named = entries := Value.named_eq hi hs
  obtain ⟨-, -, h⟩ := ends_bind_iff.mp h
  obtain ⟨found, hfound, -⟩ := ends_bind_iff.mp h
  have each := ends_each_iff.mp ⟨found, hfound⟩
  dsimp only
  rw [named, hs, lift_ok, pure_bind, bind_of_ok rfl, trace_emit, trace_bind_of_quiet fun _ => rfl,
    trace_each each, reports_flatMap]
  exact congrArg _ (List.flatMap_congr fun e he => memberEntry_trace (each e he))

/-! The issues of one kind. -/

theorem ofKind_lexical_reports (sites : List Site) :
    Issue.ofKind .lexical (reports sites) = reports sites :=
  Issue.ofKind_eq_self kind_of_mem_reports

theorem ofKind_stray_reports (sites : List Site) :
    Issue.ofKind .invalidValueType (reports sites) = [] :=
  Issue.ofKind_eq_nil fun issue hi => by simp [kind_of_mem_reports issue hi]

theorem ofKind_strayKey (key : Key) : Issue.ofKind .lexical (strayKey key) = [] ∧
    Issue.ofKind .invalidValueType (strayKey key) = strayKey key := by
  unfold strayKey
  split <;> exact ⟨rfl, rfl⟩

theorem keyIssues_lexical (policy : NamingPolicy) (key : Value) :
    Issue.ofKind .lexical (MemberNames.keyIssues policy key) = reports [Site.memberName key] := by
  unfold MemberNames.keyIssues
  by_cases h : key.Generated .identifier
  · rw [reports_met h, isIdentifier_iff_generated.mpr h, if_neg (by simp)]
    split <;> rfl
  · rw [reports_unmet h, Bool.eq_false_iff.mpr (mt isIdentifier_iff_generated.mp h),
      if_pos (by decide)]
    rfl

theorem names_lexical (policy : NamingPolicy) (keys : List Value) :
    Issue.ofKind .lexical (MemberNames.issues policy keys) =
      reports (keys.map Site.memberName) := by
  have empty : Issue.ofKind .lexical (MemberNames.emptinessIssues policy keys) = [] :=
    Issue.ofKind_eq_nil fun issue hi => by simp [MemberNames.kind_of_mem_emptinessIssues issue hi]
  have collisions : Issue.ofKind .lexical (MemberNames.collisionIssues keys) = [] :=
    Issue.ofKind_eq_nil fun issue hi => by simp [MemberNames.kind_of_mem_collisionIssues issue hi]
  unfold MemberNames.issues
  rw [Issue.ofKind_append, Issue.ofKind_append, empty, collisions, Issue.ofKind_flatMap,
    List.nil_append, List.append_nil, reports_map]
  exact List.flatMap_congr fun key _ => keyIssues_lexical policy key

theorem names_invalid (policy : NamingPolicy) (keys : List Value) :
    Issue.ofKind .invalidValueType (MemberNames.issues policy keys) = [] := by
  refine Issue.ofKind_eq_nil fun issue hi => ?_
  rcases List.mem_append.mp hi with hi | hcollision
  · rcases List.mem_append.mp hi with hempty | hkeys
    · simp [MemberNames.kind_of_mem_emptinessIssues issue hempty]
    · obtain ⟨key, -, hkey⟩ := List.mem_flatMap.mp hkeys
      rcases MemberNames.kind_of_mem_keyIssues issue hkey with hk | hk
      · simp [hk]
      · simp [hk]
  · simp [MemberNames.kind_of_mem_collisionIssues issue hcollision]

theorem referenceMap_ofKind (h : (referenceMap value).Ends) :
    Issue.ofKind .lexical (referenceMap value).trace = reports (Site.referenceMap value) ∧
      Issue.ofKind .invalidValueType (referenceMap value).trace =
        strayKeys .referenceMap value := by
  have run : (referenceMap value).trace = value.opened.flatMap fun e =>
      strayKey e.1 ++ reports (Site.referenceEntry e.1 e.2) :=
    (mapping_trace referenceEntry h).trans
      (List.flatMap_congr fun e _ => referenceEntry_trace e.1 e.2)
  rw [run, Issue.ofKind_flatMap, Issue.ofKind_flatMap]
  simp only [Issue.ofKind_append, ofKind_strayKey, ofKind_lexical_reports, ofKind_stray_reports,
    List.nil_append, List.append_nil, ← reports_flatMap]
  exact ⟨rfl, rfl⟩

theorem memberMap_ofKind {policy : NamingPolicy} (h : (memberMap policy value).Ends) :
    Issue.ofKind .lexical (memberMap policy value).trace = reports (Site.memberMap value) ∧
      Issue.ofKind .invalidValueType (memberMap policy value).trace = [] := by
  cases hentries : value.hasEntries with
  | false =>
    rw [memberMap_of_not_hasEntries hentries, Site.memberMap,
      Value.named_of_not_hasEntries hentries]
    exact ⟨rfl, rfl⟩
  | true =>
    rw [memberMap_trace h hentries, Issue.ofKind_append, Issue.ofKind_append, names_lexical,
      names_invalid, ofKind_lexical_reports, ofKind_stray_reports, List.map_map, Site.memberMap,
      reports_append]
    exact ⟨rfl, rfl⟩

/-- The issues of a reader that are about identifiers, and those about types of values. -/
theorem content_ofKind {kind : ContentKind} (h : (content kind value).Ends) :
    Issue.ofKind .lexical (content kind value).trace = reports (Site.ofKind kind value) ∧
      Issue.ofKind .invalidValueType (content kind value).trace = strayKeys kind value := by
  have image : ∀ {γ : Type} {r : Reading (Option γ)} {g : γ → Content} {sites : List Site},
      r.trace = reports sites →
      Issue.ofKind .lexical (Option.map g <$> r).trace = reports sites ∧
        Issue.ofKind .invalidValueType (Option.map g <$> r).trace = [] := by
    intro γ r g sites hr
    rw [trace_map, hr]
    exact ⟨ofKind_lexical_reports sites, ofKind_stray_reports sites⟩
  cases kind with
  | text => exact ⟨rfl, rfl⟩
  | reference => exact image (reference_trace value)
  | member => exact image (member_trace (ends_map_iff.mp h))
  | references => exact image (references_trace (ends_map_iff.mp h))
  | referenceMap =>
    have run : (content .referenceMap value).trace = (referenceMap value).trace := trace_map _ _
    rw [run]
    exact referenceMap_ofKind (ends_map_iff.mp h)
  | memberMap policy =>
    have run : (content (.memberMap policy) value).trace = (memberMap policy value).trace :=
      trace_map _ _
    rw [run]
    exact memberMap_ofKind (ends_map_iff.mp h)
  | traitMap => exact image (traitMap_trace (ends_map_iff.mp h))
  | identifierMap => exact image (identifierMap_trace (ends_map_iff.mp h))

end Reading

namespace Draft
open Traced Reading Site
variable {type : ShapeType} {es : Entries Value}

theorem readMixins_trace (h : (readMixins type (.map es)).Ends) :
    (readMixins type (.map es)).trace =
      reports (if type.allowsMixins then inField es "mixins" Site.references else []) := by
  have look : Value.fieldOf? "mixins" (.map es) = .ok (es.field? "mixins") := rfl
  unfold readMixins at h ⊢
  by_cases ha : type.allowsMixins = true
  · rw [if_pos ha, look, lift_ok, pure_bind] at h ⊢
    rw [if_pos ha, inField]
    cases hf : es.field? "mixins" with
    | none => rfl
    | some v =>
      rw [hf] at h
      obtain ⟨found, hfound, -⟩ := ends_bind_iff.mp h
      have ends : (Reading.references v).Ends := ⟨found, hfound⟩
      dsimp only
      rw [trace_bind_of_quiet fun _ => rfl, trace_within, references_trace ends, reports_under]
  · rw [if_neg ha, if_neg ha]
    rfl

theorem readField_trace {field : Field} {v : Value} (hf : es.field? field.name = some v) :
    (readField (.map es) field).trace =
      (content field.kind v).trace.map (.under [.str field.name]) := by
  have look : Value.fieldOf? field.name (.map es) = .ok (some v) := congrArg Except.ok hf
  unfold readField
  rw [look, lift_ok, pure_bind]
  dsimp only
  rw [trace_bind_of_quiet, trace_within]
  intro found
  cases found with
  | none => rfl
  | some c => exact trace_lift_bind _ fun _ => rfl

theorem content_ends_of_readField {field : Field} {v : Value}
    (hf : es.field? field.name = some v) (h : (readField (.map es) field).Ends) :
    (content field.kind v).Ends := by
  have look : Value.fieldOf? field.name (.map es) = .ok (some v) := congrArg Except.ok hf
  unfold readField at h
  rw [look, lift_ok, pure_bind] at h
  obtain ⟨c, hc, -⟩ := ends_bind_iff.mp h
  exact ⟨c, hc⟩

theorem readField_ofKind {field : Field} (h : (readField (.map es) field).Ends) :
    Issue.ofKind .lexical (readField (.map es) field).trace =
      reports (inField es field.name (Site.ofKind field.kind)) ∧
    Issue.ofKind .invalidValueType (readField (.map es) field).trace =
      straysInField es field := by
  have look : Value.fieldOf? field.name (.map es) = .ok (es.field? field.name) := rfl
  unfold inField straysInField
  cases hf : es.field? field.name with
  | none =>
    unfold readField
    rw [look, hf]
    exact ⟨rfl, rfl⟩
  | some v =>
    have ends := content_ends_of_readField hf h
    rw [readField_trace hf, Issue.ofKind_under, Issue.ofKind_under, (content_ofKind ends).1,
      (content_ofKind ends).2, reports_under]
    exact ⟨rfl, rfl⟩

theorem read_trace {node : Value} (h : (read type node).Ends) : (readMixins type node).Ends ∧
    (∀ field ∈ type.fields, (readField node field).Ends) ∧
    (read type node).trace = (readMixins type node).trace ++
      type.fields.flatMap fun field => (readField node field).trace := by
  obtain ⟨mixins, hm, h⟩ := ends_bind_iff.mp h
  obtain ⟨fields, hf, -⟩ := ends_bind_iff.mp h
  have each := ends_each_iff.mp ⟨fields, hf⟩
  refine ⟨⟨mixins, hm⟩, each, ?_⟩
  unfold read
  rw [trace_bind hm, trace_bind_of_quiet fun _ => rfl, trace_each each]

theorem read_ofKind (h : (read type (.map es)).Ends) :
    Issue.ofKind .lexical (read type (.map es)).trace = reports (ofDefinition type es) ∧
      Issue.ofKind .invalidValueType (read type (.map es)).trace = straysOfDefinition type es := by
  obtain ⟨hmixins, each, run⟩ := read_trace h
  rw [run, readMixins_trace hmixins, Issue.ofKind_append, Issue.ofKind_append,
    ofKind_lexical_reports, ofKind_stray_reports, Issue.ofKind_flatMap, Issue.ofKind_flatMap,
    ofDefinition, reports_append, reports_flatMap]
  constructor
  · exact congrArg _ (List.flatMap_congr fun field hf => (readField_ofKind (each field hf)).1)
  · exact List.flatMap_congr fun field hf => (readField_ofKind (each field hf)).2

end Draft

end ServiceModel
