import ServiceModel.Proofs.Location
import ServiceModel.Proofs.Shape.Collapse
import ServiceModel.Proofs.Shape.Contents
import ServiceModel.Proofs.Shape.Ends
import ServiceModel.Shape.Parse

/-!
# Readers that share one list of issues

A second account of reading a shape. Each reader is handed the whole path of the node it reads and
appends what it finds to one list, which it shares with all readers before and after it; whether a
shape is made is decided by looking at that list. A fault ends the reading and leaves the list as
it is. Reading a value at a path by the readers of `Reading`, whose paths are relative, amounts to
the same: this is shown for one way of putting readers together at a time, and then reader by
reader.
-/
namespace ServiceModel

theorem Path.exists_key_of_tokens {path : Path} (h : ∀ token ∈ path, IsToken token) :
    ∀ token ∈ path, ∃ key : Key, token = key.toValue := by
  intro token ht
  cases h token ht with
  | name s => exact ⟨.str s, rfl⟩
  | position n => exact ⟨.int n, rfl⟩

namespace Shape
variable [Visiting] {node : Value} {path : Path} {fault : Fault}

theorem parse_of_fault (h : classify node = .error fault) :
    parse node path = ⟨[], .error fault⟩ := by
  unfold parse
  rw [h]
  rfl

theorem parse_of_plain_fault {type : ShapeType} {es : Entries Value}
    (hc : classify node = .ok (.ok (type, es))) (hp : (Value.map es).toPlain = .error fault) :
    parse node path = ⟨[], .error fault⟩ := by
  unfold parse
  rw [hc, Traced.lift_ok, pure_bind]
  dsimp only
  rw [hp]
  rfl

end Shape

/-- A computation that appends to the issues held so far. -/
abbrev Collecting (α : Type) := ExceptT Fault (StateM (List Issue)) α

namespace Collecting
variable {α β : Type}

def append (found : List Issue) : Collecting Unit := modify (· ++ found)

def token (rule : Rule) (value : Value) (path : Path) : Collecting (Option (Token rule)) :=
  match Token.parse rule value with
  | .ok token => return some token
  | .error refusal => do
    append [(Finding.badToken refusal).issueAt path]
    return none

def tokenOfText (rule : Rule) (value : Value) (path : Path) : Collecting (Option (Token rule)) :=
  match value with
  | .str _ => token rule value path
  | _ => return none

def reference (node : Value) (path : Path) : Collecting (Option Reference) := do
  match ← node.entries? with
  | none => return none
  | some entries =>
    let target := (entries.field? "target").getD .null
    let id ← tokenOfText .absoluteId target (path ++ [.str "target"])
    return id.map Reference.mk

def memberTrait (key : Key) (value : Value) (path : Path) :
    Collecting (Option (AbsoluteId × Value)) := do
  match ← token .absoluteId key.toValue (path ++ [.str "traits", .str key.text]) with
  | none => return none
  | some id =>
    let value ← value.toPlain
    let value ← value.toFixed
    return some (id, value)

def memberTraits (entries : Entries Value) (path : Path) :
    Collecting (List (AbsoluteId × Value)) := do
  let raw ← ((entries.field? "traits").getD (.map [])).entries?
  let traits ← (raw.getD []).mapM fun e => memberTrait e.1 e.2 path
  return traits.filterMap id

def member (node : Value) (path : Path) : Collecting (Option Member) := do
  let reference ← reference node path
  match ← node.entries? with
  | none => return none
  | some entries =>
    let traits ← memberTraits entries path
    return reference.map fun reference => ⟨reference, traits⟩

def references (node : Value) (path : Path) : Collecting (Option (List (Option Reference))) :=
  match node with
  | .list items | .tuple items | .pairs items => do
    let found ← items.zipIdx.mapM fun item => reference item.1 (path ++ [.int item.2])
    return some found
  | _ => return none

def mapping (entry : Key → Value → Path → Collecting (Option α)) (node : Value) (path : Path) :
    Collecting (Option (List α)) := do
  match ← node.entries? with
  | none => return none
  | some entries =>
    let found ← entries.mapM fun e => entry e.1 e.2 path
    return some (found.filterMap id)

def referenceEntry (key : Key) (value : Value) (path : Path) :
    Collecting (Option (String × Option Reference)) :=
  match key with
  | .str name => do
    let found ← reference value (path ++ [.str name])
    return some (name, found)
  | key => do
    append [(Finding.keyNotText key.toValue).issueAt (path ++ [.str key.text])]
    return none

/-- Everything wrong with the names of members, at the path of their mapping. -/
def namesAt (policy : NamingPolicy) (keys : List Value) (path : Path) : List Issue :=
  let empty := if policy.nonEmpty && keys.isEmpty then [Finding.noMembers.issueAt path] else []
  let named := keys.flatMap fun key =>
    if !isIdentifier key then [(Finding.badMemberName key).issueAt (path ++ [.str key.text])]
    else if policy.enumNames && !isEnumMemberName key then
      [(Finding.badEnumMemberName key).issueAt (path ++ [key])]
    else []
  let colliding := (MemberNames.collisions keys).map fun group =>
    (Finding.collidingMembers group.2).issueAt path
  empty ++ named ++ colliding

def checkNames (policy : NamingPolicy) (members : Value) (path : Path) :
    Except Fault (List Issue) := do
  let entries ← Value.splitAll (← members.itemsOrParts)
  return namesAt policy (entries.map (·.1)) path

def memberName (key : Value) : Collecting MemberName := do
  match Token.parse .identifier key with
  | .ok name => return .identifier name
  | .error _ =>
    let key ← key.key
    return .other key

def memberEntry (key value : Value) (path : Path) : Collecting (MemberName × Option Member) := do
  let found ← member value (path ++ [.str key.text])
  let name ← memberName key
  return (name, found)

def memberMap (policy : NamingPolicy) (node : Value) (path : Path) :
    Collecting (Option (List (MemberName × Option Member))) := do
  match node.items? with
  | none => return none
  | some items =>
    let entries ← Value.splitAll items
    append (namesAt policy (entries.map (·.1)) path)
    let found ← entries.mapM fun e => memberEntry e.1 e.2 path
    return some (found.foldl Reading.putMember [])

def traitEntry (key : Key) (value : Value) (path : Path) :
    Collecting (Option (ShapeId × Value)) := do
  match ← token .shapeId key.toValue (path ++ [.str key.text]) with
  | none => return none
  | some id =>
    let value ← value.toPlain
    return some (id, value)

def identifierEntry (key : Key) (value : Value) (path : Path) :
    Collecting (Option (ShapeId × Identifier)) := do
  let id ← token .shapeId key.toValue (path ++ [.str key.text])
  let name ← tokenOfText .identifier value (path ++ [.str key.text])
  match id, name with
  | some id, some name => return some (id, name)
  | _, _ => return none

def content (kind : ContentKind) (node : Value) (path : Path) : Collecting (Option Content) :=
  match kind with
  | .text => return node.str?.map .text
  | .reference => do return (← reference node path).map .reference
  | .member => do return (← member node path).map .member
  | .references => do return (← references node path).map .references
  | .referenceMap => do return (← mapping referenceEntry node path).map (.referenceMap .writable)
  | .memberMap policy => do return (← memberMap policy node path).map (.memberMap .writable)
  | .traitMap => do return (← mapping traitEntry node path).map (.traitMap .writable)
  | .identifierMap => do return (← mapping identifierEntry node path).map (.identifierMap .writable)

def mixins (type : ShapeType) (node : Value) (path : Path) :
    Collecting (List (Option Reference)) :=
  if type.allowsMixins then do
    match ← node.fieldOf? "mixins" with
    | none => return []
    | some value =>
      let found ← references value (path ++ [.str "mixins"])
      return found.getD []
  else return []

def field (node : Value) (path : Path) (field : Field) :
    Collecting (Option (String × Option Content)) := do
  match ← node.fieldOf? field.name with
  | none => return none
  | some value =>
    match ← content field.kind value (path ++ [.str field.name]) with
    | none => return some (field.name, none)
    | some content =>
      let content ← content.toFixed
      return some (field.name, some content)

def draft (type : ShapeType) (node : Value) (path : Path) : Collecting Draft := do
  let mixins ← mixins type node path
  let fields ← type.fields.mapM (field node path)
  return ⟨type, mixins, fields.filterMap id⟩

/-- Makes a shape if no issue is held, whatever reader has found it. -/
def build (type : ShapeType) (node : Value) (path : Path) : Collecting (Option Shape) := do
  let draft ← draft type node path
  if (← get).isEmpty then
    let shape ← draft.toShape
    return some shape
  else return none

/-- The structural issues of a definition; repeated ones are told by their whole paths. -/
def structuralAt [Visiting] (type : ShapeType) (node : Value) (path : Path) : List Issue :=
  Issue.firsts ((type.complaints node).map fun c => c.issue.under path)

def parse [Visiting] (node : Value) (path : Path) : Collecting (Option Shape) := do
  match ← Shape.classify node with
  | .error issue =>
    append [issue.under path]
    return none
  | .ok (type, entries) =>
    let plain ← (Value.map entries).toPlain
    append (structuralAt type plain path)
    build type (.map entries) path

theorem run_bind (m : Collecting α) (f : α → Collecting β) (issues : List Issue) :
    (m >>= f).run issues = match m.run issues with
      | (.ok a, held) => (f a).run held
      | (.error fault, held) => (.error fault, held) := by
  change ExceptT.bindCont f (m.run issues).1 (m.run issues).2 = _
  cases m.run issues with
  | mk outcome held => cases outcome <;> rfl

theorem run_get (issues : List Issue) :
    (get : Collecting (List Issue)).run issues = (.ok issues, issues) := rfl

/-- The first ends as the second does, and appends what the second traces, seen from above the
path. -/
def Follows (path : Path) (m : Collecting α) (reading : Reading α) : Prop :=
  ∀ issues, m.run issues = (reading.outcome, issues ++ reading.trace.map (.under path))

namespace Follows
variable {path : Path} {m : Collecting α} {reading : Reading α}

theorem of_pure (a : α) : Follows path (pure a) (pure a) := fun issues =>
  congrArg (Prod.mk _) (List.append_nil issues).symm

theorem of_lift (outcome : Except Fault α) :
    Follows path (liftM outcome) (Traced.lift outcome) := fun issues =>
  congrArg (Prod.mk _) (List.append_nil issues).symm

theorem of_append {found issues : List Issue} (h : found = issues.map (.under path)) :
    Follows path (append found) (Traced.emit issues) := fun held => by
  rw [h]
  rfl

theorem of_report (finding : Finding) :
    Follows path (append [finding.issueAt path]) (Reading.report finding) :=
  of_append (by rw [List.map_singleton, Finding.under_issueAt, List.append_nil])

theorem bind (h : Follows path m reading) {f : α → Collecting β} {g : α → Reading β}
    (hf : ∀ a, Follows path (f a) (g a)) : Follows path (m >>= f) (reading >>= g) := by
  intro issues
  rw [run_bind, h]
  cases ha : reading.outcome with
  | ok a =>
    dsimp only
    rw [hf, Traced.bind_of_ok ha, List.map_append, List.append_assoc]
  | error fault => rw [Traced.bind_of_error ha]

theorem within {tokens : Path} (h : Follows (path ++ tokens) m reading) :
    Follows path m (Reading.within tokens reading) := by
  intro issues
  rw [h, ← Issue.map_under_under]
  rfl

theorem each {γ : Type} {f : γ → Collecting α} {g : γ → Reading α}
    (h : ∀ c, Follows path (f c) (g c)) (items : List γ) :
    Follows path (items.mapM f) (Traced.each g items) := by
  induction items with
  | nil => exact of_pure []
  | cons c rest ih =>
    rw [List.mapM_cons, Traced.each_cons]
    exact (h c).bind fun a => ih.bind fun more => of_pure _

end Follows

/-! ## Each reader follows its counterpart -/

section
open Follows
variable {path : Path}

theorem token_follows (rule : Rule) (value : Value) :
    Follows path (token rule value path) (Reading.token rule value) := by
  unfold token Reading.token
  cases Token.parse rule value with
  | ok token => exact of_pure _
  | error refusal => exact (of_report _).bind fun _ => of_pure _

theorem tokenOfText_follows (rule : Rule) (value : Value) :
    Follows path (tokenOfText rule value path) (Reading.tokenOfText rule value) := by
  match value with
  | .str _ => exact token_follows rule _
  | .scalar .null | .scalar (.bool _) | .scalar (.int _) | .scalar (.float _) | .list _ | .tuple _
  | .pairs _ | .map _ | .frozen _ => exact of_pure _

theorem reference_follows (node : Value) :
    Follows path (reference node path) (Reading.reference node) := by
  refine (of_lift _).bind fun entries => ?_
  cases entries with
  | none => exact of_pure _
  | some entries => exact (tokenOfText_follows _ _).within.bind fun id => of_pure _

theorem memberTrait_follows (key : Key) (value : Value) :
    Follows path (memberTrait key value path) (Reading.memberTrait key value) := by
  refine (token_follows _ _).within.bind fun id => ?_
  cases id with
  | none => exact of_pure _
  | some id => exact (of_lift _).bind fun plain => (of_lift _).bind fun fixed => of_pure _

theorem memberTraits_follows (entries : Entries Value) :
    Follows path (memberTraits entries path) (Reading.memberTraits entries) := by
  refine (of_lift _).bind fun raw => ?_
  exact (each (fun e : Key × Value => memberTrait_follows e.1 e.2) _).bind fun traits => of_pure _

theorem member_follows (node : Value) : Follows path (member node path) (Reading.member node) := by
  refine (reference_follows node).bind fun reference => (of_lift _).bind fun entries => ?_
  cases entries with
  | none => exact of_pure _
  | some entries => exact (memberTraits_follows entries).bind fun traits => of_pure _

theorem references_follows (node : Value) :
    Follows path (references node path) (Reading.references node) := by
  have each : ∀ items : List Value,
      Follows path
        (do return some (← items.zipIdx.mapM fun item => reference item.1 (path ++ [.int item.2])))
        (do return some (← Traced.each
          (fun item => Reading.within [.int item.2] (Reading.reference item.1)) items.zipIdx)) :=
    fun items => (Follows.each (fun item : Value × Nat => (reference_follows item.1).within) _).bind
      fun found => of_pure _
  cases node with
  | list items => exact each items
  | tuple items => exact each items
  | pairs items => exact each items
  | _ => exact of_pure _

theorem mapping_follows {entry : Key → Value → Path → Collecting (Option α)}
    {read : Key → Value → Reading (Option α)}
    (h : ∀ key value, Follows path (entry key value path) (read key value)) (node : Value) :
    Follows path (mapping entry node path) (Reading.mapping read node) := by
  refine (of_lift _).bind fun entries => ?_
  cases entries with
  | none => exact of_pure _
  | some entries => exact (each (fun e : Key × Value => h e.1 e.2) _).bind fun found => of_pure _

theorem referenceEntry_follows (key : Key) (value : Value) :
    Follows path (referenceEntry key value path) (Reading.referenceEntry key value) := by
  match key with
  | .str name => exact (reference_follows value).within.bind fun found => of_pure _
  | .tuple _ | .scalar .null | .scalar (.bool _) | .scalar (.int _) | .scalar (.float _) =>
    exact (of_report _).within.bind fun _ => of_pure _

theorem namesAt_eq (policy : NamingPolicy) (keys : List Value) :
    namesAt policy keys path = (MemberNames.issues policy keys).map (.under path) := by
  have at_end : ∀ finding : Finding, (finding.issueAt []).under path = finding.issueAt path :=
    fun finding => by rw [Finding.under_issueAt, List.append_nil]
  unfold namesAt MemberNames.issues
  dsimp only
  rw [List.map_append, List.map_append, List.map_flatMap]
  refine congrArg₂ (· ++ ·) (congrArg₂ (· ++ ·) ?_ ?_) ?_
  · unfold MemberNames.emptinessIssues
    split
    · rw [List.map_singleton, at_end]
    · rfl
  · refine List.flatMap_congr fun key _ => ?_
    unfold MemberNames.keyIssues
    split
    · rfl
    · split <;> rfl
  · rw [MemberNames.collisionIssues, List.map_map]
    exact List.map_congr_left fun group _ => (at_end _).symm

theorem checkNames_eq (policy : NamingPolicy) (members : Value) :
    checkNames policy members path = MemberNames.check policy members path := by
  unfold checkNames MemberNames.check
  refine bind_congr fun items => bind_congr fun entries => ?_
  rw [namesAt_eq]

theorem memberName_follows (key : Value) :
    Follows path (memberName key) (Reading.memberName key) := by
  unfold memberName Reading.memberName
  cases Token.parse .identifier key with
  | ok name => exact of_pure _
  | error refusal => exact (of_lift _).bind fun key => of_pure _

theorem memberEntry_follows (key value : Value) :
    Follows path (memberEntry key value path) (Reading.memberEntry key value) :=
  (member_follows value).within.bind fun _ => (memberName_follows key).bind fun _ => of_pure _

theorem memberMap_follows (policy : NamingPolicy) (node : Value) :
    Follows path (memberMap policy node path) (Reading.memberMap policy node) := by
  unfold memberMap Reading.memberMap
  cases node.items? with
  | none => exact of_pure _
  | some items =>
    refine (of_lift _).bind fun entries => (of_append (namesAt_eq policy _)).bind fun _ => ?_
    exact (each (fun e : Value × Value => memberEntry_follows e.1 e.2) _).bind fun _ => of_pure _

theorem traitEntry_follows (key : Key) (value : Value) :
    Follows path (traitEntry key value path) (Reading.traitEntry key value) := by
  refine (token_follows _ _).within.bind fun id => ?_
  cases id with
  | none => exact of_pure _
  | some id => exact (of_lift _).bind fun plain => of_pure _

theorem identifierEntry_follows (key : Key) (value : Value) :
    Follows path (identifierEntry key value path) (Reading.identifierEntry key value) := by
  refine (token_follows _ _).within.bind fun id =>
    (tokenOfText_follows _ _).within.bind fun name => ?_
  cases id with
  | none => exact of_pure _
  | some id => cases name <;> exact of_pure _

theorem content_follows (kind : ContentKind) (node : Value) :
    Follows path (content kind node path) (Reading.content kind node) := by
  cases kind with
  | text => exact of_pure _
  | reference => exact (reference_follows node).bind fun found => of_pure _
  | member => exact (member_follows node).bind fun found => of_pure _
  | references => exact (references_follows node).bind fun found => of_pure _
  | referenceMap =>
    exact (mapping_follows referenceEntry_follows node).bind fun found => of_pure _
  | memberMap policy => exact (memberMap_follows policy node).bind fun found => of_pure _
  | traitMap => exact (mapping_follows traitEntry_follows node).bind fun found => of_pure _
  | identifierMap =>
    exact (mapping_follows identifierEntry_follows node).bind fun found => of_pure _

theorem mixins_follows (type : ShapeType) (node : Value) :
    Follows path (mixins type node path) (Draft.readMixins type node) := by
  unfold mixins Draft.readMixins
  cases type.allowsMixins with
  | false => exact of_pure _
  | true =>
    refine (of_lift _).bind fun value => ?_
    cases value with
    | none => exact of_pure _
    | some value => exact (references_follows value).within.bind fun found => of_pure _

theorem field_follows (node : Value) (field : Field) :
    Follows path (Collecting.field node path field) (Draft.readField node field) := by
  refine (of_lift _).bind fun value => ?_
  cases value with
  | none => exact of_pure _
  | some value =>
    refine (content_follows _ _).within.bind fun content => ?_
    cases content with
    | none => exact of_pure _
    | some content => exact (of_lift _).bind fun fixed => of_pure _

theorem draft_follows (type : ShapeType) (node : Value) :
    Follows path (draft type node path) (Draft.read type node) :=
  (mixins_follows type node).bind fun _ =>
    (each (field_follows node) _).bind fun _ => of_pure _

/-- Looking at the shared list is looking at what the collector holds. -/
theorem run_build (collector : Collector) (type : ShapeType) (node : Value) :
    (build type node collector.path).run collector.issues =
      ((collector.finish type node).2, (collector.finish type node).1.issues) := by
  unfold build Collector.finish
  rw [run_bind, draft_follows]
  dsimp only [Collector.take]
  cases (Draft.read type node).outcome with
  | error fault => rfl
  | ok draft =>
    rw [Fault.ok_bind]
    generalize collector.issues ++
      (Draft.read type node).trace.map (Issue.under collector.path) = held
    dsimp only
    rw [run_bind, run_get]
    dsimp only
    split
    · cases draft.toShape <;> rfl
    · rfl

end

/-! ## Issues repeated at whole paths -/

theorem equalAll_append {path : Path} (hpath : ∀ token ∈ path, Path.IsToken token)
    (p q : List Value) : Value.equalAll (path ++ p) (path ++ q) = Value.equalAll p q := by
  induction path with
  | nil => rfl
  | cons token rest ih =>
    obtain ⟨ht, hr⟩ := List.forall_mem_cons.mp hpath
    have self : token.equal token = true := by
      cases ht <;> simp [Value.equal, Scalar.same, Scalar.integral?, Scalar.isUndefined]
    rw [List.cons_append, List.cons_append, Value.equalAll, self, Bool.true_and, ih hr]

theorem alike_under {path : Path} (hpath : ∀ token ∈ path, Path.IsToken token) (a b : Issue) :
    (a.under path).alike (b.under path) = a.alike b :=
  congrArg (fun same => a.kind == b.kind && same) (equalAll_append hpath a.path b.path)

theorem firsts_map {f : Issue → Issue} (h : ∀ a b, (f a).alike (f b) = a.alike b)
    (issues : List Issue) : Issue.firsts (issues.map f) = (Issue.firsts issues).map f := by
  induction issues with
  | nil => rfl
  | cons issue rest ih =>
    rw [List.map_cons, Issue.firsts, ih, Issue.firsts, List.map_cons, List.filter_map]
    refine congrArg (f issue :: List.map f ·) (List.filter_congr fun other _ => ?_)
    exact congrArg (!·) (h issue other)

section
variable [Visiting]

/-- Where tokens equal themselves, issues are told apart by their whole paths as they are by the
paths below the definition. -/
theorem structuralAt_eq {path : Path} (hpath : ∀ token ∈ path, Path.IsToken token)
    (type : ShapeType) (node : Value) :
    structuralAt type node path = (type.structuralIssues node).map (.under path) := by
  unfold structuralAt ShapeType.structuralIssues
  rw [← firsts_map (alike_under hpath), List.map_map]
  rfl

/-- From no issues, parsing with a shared list gives the shape and the issues that are traced. -/
theorem run_parse {path : Path} (hpath : ∀ token ∈ path, Path.IsToken token) (node : Value) :
    (parse node path).run [] = ((Shape.parse node path).outcome, (Shape.parse node path).trace) := by
  have keys := Path.exists_key_of_tokens hpath
  unfold parse
  rw [run_bind]
  cases hc : Shape.classify node with
  | error fault =>
    rw [Shape.parse_of_fault hc]
    rfl
  | ok classified =>
    cases classified with
    | error issue =>
      rw [Shape.parse_of_refused hc]
      rfl
    | ok found =>
      obtain ⟨type, es⟩ := found
      change (liftM (Value.map es).toPlain >>= fun plain => append (structuralAt type plain path) >>=
        fun _ => build type (.map es) path).run [] = _
      rw [run_bind]
      cases hp : (Value.map es).toPlain with
      | error fault =>
        rw [Shape.parse_of_plain_fault hc hp]
        rfl
      | ok plain =>
        -- The list holds the structural issues when the build begins.
        rw [Shape.parse_of_classified hc hp (Shape.structuralIssuesAt_of_keys type plain keys),
          ← structuralAt_eq hpath]
        exact run_build ⟨path, _⟩ type (.map es)

/-- What is read of a node at a path is the same in both accounts: when it is parsed, when its form
or the names of its members are checked, when one field is read of it, and when a shape is built. -/
structure Agrees (node : Value) (path : Path) : Prop where
  parse : (parse node path).run [] = ((Shape.parse node path).outcome, (Shape.parse node path).trace)
  structural : ∀ type : ShapeType,
    type.structuralIssuesAt path node = .ok (structuralAt type node path)
  names : ∀ policy, MemberNames.check policy node path = checkNames policy node path
  content : ∀ kind (collector : Collector),
    let (next, outcome) := collector.take path (Reading.content kind node)
    (content kind node path).run collector.issues = (outcome, next.issues)
  build : ∀ type issues,
    let (next, outcome) := Collector.finish ⟨path, issues⟩ type node
    (build type node path).run issues = (outcome, next.issues)

theorem agrees {path : Path} (hpath : ∀ token ∈ path, Path.IsToken token) (node : Value) :
    Agrees node path where
  parse := run_parse hpath node
  structural := fun type => by
    rw [structuralAt_eq hpath]
    exact Shape.structuralIssuesAt_of_keys type node (Path.exists_key_of_tokens hpath)
  names := fun policy => (checkNames_eq policy node).symm
  content := fun kind collector => content_follows kind node collector.issues
  build := fun type issues => run_build ⟨path, issues⟩ type node

end

end Collecting

end ServiceModel
