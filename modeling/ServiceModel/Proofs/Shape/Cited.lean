import ServiceModel.Proofs.Shape.Pointing
import ServiceModel.Proofs.Value.Inherited

/-!
# What issues cite

A finding cites the values that it speaks of. In the issues of a definition these are parts of the
definition, besides the names of fields that it lacks. So what is inherited from a definition by its
parts holds of all that its issues cite.
-/
namespace ServiceModel

namespace Finding

/-- The values that a finding speaks of; numbers and names of rules are not among them. -/
def cited : Finding → List Value
  | .badToken refusal | .badShapeId refusal => [refusal.value]
  | .badMemberName key | .badEnumMemberName key => [key]
  | .collidingMembers keys => keys
  | .noMembers | .typeMissing => []
  | .notAShape node | .wrongType node _ | .wrongTag node _ | .documentNotMapping node => [node]
  | .typeUnknown type => [type]
  | .fieldMissing name => [.str name]
  | .fieldUnexpected key | .keyNotText key | .shapeIdRepeated key _ => [key]

/-- The property holds of every value that is cited. -/
def Cites (P : Value → Prop) (finding : Finding) : Prop :=
  ∀ value ∈ finding.cited, P value

end Finding

namespace Issue
variable {P : Value → Prop}

/-- The issue is about a finding that cites only values with the property. -/
def Cites (P : Value → Prop) (issue : Issue) : Prop :=
  ∃ (finding : Finding) (path : Path), issue = finding.issueAt path ∧ finding.Cites P

theorem Cites.under {issue : Issue} (h : issue.Cites P) (path : Path) :
    (issue.under path).Cites P := by
  obtain ⟨finding, p, rfl, hf⟩ := h
  exact ⟨finding, path ++ p, rfl, hf⟩

end Issue

namespace Check
open Value
variable {P : Value → Prop}

/-- What a check complains about cites only values with a property that the checked value has. -/
def Cites (P : Value → Prop) (check : Check) : Prop :=
  ∀ value : Value, P value → ∀ c ∈ check value, c.finding.Cites P

theorem ofType_cites (type : DataType) : (ofType type).Cites P := by
  intro value h c hc
  unfold ofType at hc
  split at hc
  · cases hc
  · obtain rfl := List.mem_singleton.mp hc
    exact List.forall_mem_singleton.mpr h

theorem tag_cites (expected : String) : (tag expected).Cites P := by
  intro value h c hc
  unfold tag at hc
  split at hc
  · cases hc
  · obtain rfl := List.mem_singleton.mp hc
    exact List.forall_mem_singleton.mpr h

theorem record_map_cites (ht : Value.Inherited P) {fields : List (String × Check)}
    (h : ∀ f ∈ fields, f.2.Cites P) {required : List String}
    (hr : ∀ name ∈ required, Text.newlines name = 0) {es : Entries Value} (hes : es.Each P) :
    ∀ c ∈ record fields required (.map es), c.finding.Cites P := by
  intro c hc
  rcases List.mem_append.mp hc with hc | hunexpected
  · rcases List.mem_append.mp hc with hfield | hmissing
    · obtain ⟨f, hmem, hc⟩ := List.mem_flatMap.mp hfield
      obtain ⟨v, hfound, d, hd, rfl⟩ := mem_field_iff.mp hc
      exact h f hmem v (hes.field? hfound) d hd
    · obtain ⟨name, hname, rfl⟩ := List.mem_map.mp hmissing
      exact List.forall_mem_singleton.mpr (ht.fixed name (hr name (List.mem_filter.mp hname).1))
  · obtain ⟨e, he, rfl⟩ := List.mem_map.mp hunexpected
    exact List.forall_mem_singleton.mpr (hes e (List.mem_filter.mp he).1).1

theorem record_cites (ht : Value.Inherited P) {fields : List (String × Check)}
    (h : ∀ f ∈ fields, f.2.Cites P) {required : List String}
    (hr : ∀ name ∈ required, Text.newlines name = 0) : (record fields required).Cites P := by
  intro value hv c hc
  cases value with
  | map es => exact record_map_cites ht h hr (ht.map hv) c hc
  | _ => exact ofType_cites .object _ hv c hc

theorem arrayOf_cites (ht : Value.Inherited P) {check : Check} (h : check.Cites P) :
    (arrayOf check).Cites P := by
  intro value hv c hc
  cases value with
  | list items =>
    obtain ⟨⟨item, n⟩, hn, hc⟩ := List.mem_flatMap.mp hc
    obtain ⟨d, hd, rfl⟩ := List.mem_map.mp hc
    have hi := List.mem_of_getElem? (List.mk_mem_zipIdx_iff_getElem?.mp hn)
    exact h item (ht.list hv item hi) d hd
  | _ => exact ofType_cites .array _ hv c hc

theorem mapOf_cites [Visiting] (ht : Value.Inherited P) {check : Check} (h : check.Cites P) :
    (mapOf check).Cites P := by
  intro value hv c hc
  cases value with
  | map es =>
    obtain ⟨e, he, hc⟩ := List.mem_flatMap.mp hc
    obtain ⟨d, hd, rfl⟩ := List.mem_map.mp hc
    have same : (d.underKey e.1).finding = d.finding := by
      unfold Complaint.underKey
      split <;> rfl
    rw [same]
    exact h e.2 (ht.map hv e (Visiting.mem_order_iff.mp he)).2 d hd
  | _ => exact ofType_cites .object _ hv c hc

theorem textKeyed_cites (ht : Value.Inherited P) : textKeyed.Cites P := by
  intro value hv c hc
  cases value with
  | map es =>
    obtain ⟨key, hk, hc⟩ := List.mem_flatMap.mp hc
    obtain ⟨e, he, rfl⟩ := List.mem_map.mp hk
    exact ofType_cites .string _ (ht.map hv e he).1 c hc
  | _ => exact ofType_cites .object _ hv c hc

theorem reference_cites (ht : Value.Inherited P) : reference.Cites P :=
  record_cites ht (List.forall_mem_singleton.mpr (ofType_cites .string)) (by decide)

theorem member_cites (ht : Value.Inherited P) : member.Cites P :=
  record_cites ht (List.forall_mem_cons.mpr ⟨ofType_cites .string,
    List.forall_mem_singleton.mpr (ofType_cites .object)⟩) (by decide)

theorem ofKind_cites [Visiting] (ht : Value.Inherited P) (kind : ContentKind) :
    (ofKind kind).Cites P := by
  cases kind with
  | text => exact ofType_cites .string
  | reference => exact reference_cites ht
  | member => exact member_cites ht
  | references => exact arrayOf_cites ht (reference_cites ht)
  | referenceMap => exact mapOf_cites ht (reference_cites ht)
  | memberMap _ => exact mapOf_cites ht (member_cites ht)
  | traitMap => exact ofType_cites .object
  | identifierMap => exact mapOf_cites ht (ofType_cites .string)

theorem newlines_requiredFields (type : ShapeType) :
    ∀ name ∈ "type" :: type.requiredFields, Text.newlines name = 0 := by
  cases type with
  | simple _ => exact List.forall_mem_singleton.mpr (by decide)
  | _ => decide

theorem ofShapeType_cites [Visiting] (ht : Value.Inherited P) (type : ShapeType) :
    (ofShapeType type).Cites P := by
  refine record_cites ht (fun f hf => ?_) (newlines_requiredFields type)
  rcases List.mem_append.mp hf with hf | hf
  · rcases List.mem_cons.mp hf with rfl | hf
    · exact tag_cites type.tag
    · split at hf
      · obtain rfl := List.mem_singleton.mp hf
        exact ofKind_cites ht .references
      · cases hf
  · obtain ⟨field, -, rfl⟩ := List.mem_map.mp hf
    exact ofKind_cites ht field.kind

end Check

theorem MemberNames.issues_cite {P : Value → Prop} {policy : NamingPolicy} {keys : List Value}
    (h : ∀ key ∈ keys, P key) :
    ∀ issue ∈ issues policy keys, issue.Cites P := by
  intro issue hi
  rcases List.mem_append.mp hi with hi | hcollision
  · rcases List.mem_append.mp hi with hempty | hkey
    · unfold emptinessIssues at hempty
      split at hempty
      · obtain rfl := List.mem_singleton.mp hempty
        exact ⟨.noMembers, [], rfl, fun _ hv => nomatch hv⟩
      · cases hempty
    · obtain ⟨key, hmem, hi⟩ := List.mem_flatMap.mp hkey
      have cited := List.forall_mem_singleton (p := P).mpr
        (h key hmem)
      unfold keyIssues at hi
      split at hi
      · obtain rfl := List.mem_singleton.mp hi
        exact ⟨.badMemberName key, _, rfl, cited⟩
      · split at hi
        · obtain rfl := List.mem_singleton.mp hi
          exact ⟨.badEnumMemberName key, _, rfl, cited⟩
        · cases hi
  · obtain ⟨group, hg, rfl⟩ := List.mem_map.mp hcollision
    exact ⟨.collidingMembers group.2, [], rfl, fun key hk =>
      h key (subset_of_mem_groups group (mem_groups_of_mem_collisions hg) hk)⟩

namespace Reading
open Traced Value
variable {α : Type} {P : Value → Prop} {value : Value} {es : Entries Value}

/-- Every issue that is found cites only values with the property. -/
def Cites (P : Value → Prop) (reading : Reading α) : Prop := reading.Traces (Issue.Cites P)

theorem cites_within {reading : Reading α} (h : Cites P reading) (path : Path) :
    Cites P (within path reading) :=
  traces_relabel_iff.mpr fun issue hi => (h issue hi).under path

theorem report_cites {finding : Finding} (h : finding.Cites P) : Cites P (report finding) :=
  traces_emit_iff.mpr (List.forall_mem_singleton.mpr ⟨finding, [], rfl, h⟩)

theorem token_cites (rule : Rule) (h : P value) :
    Cites P (token rule value) := by
  unfold token
  split
  · exact traces_pure _
  · rename_i refusal hr
    obtain rfl := Token.eq_of_parse_eq_error hr
    refine (report_cites fun v hv => ?_).bind fun _ _ => traces_pure _
    rwa [List.mem_singleton.mp hv]

theorem tokenOfText_cites (rule : Rule) (h : P value) :
    Cites P (tokenOfText rule value) := by
  unfold tokenOfText
  split
  · exact token_cites rule h
  · exact traces_pure _

theorem cites_entries (ht : Value.Inherited P) (h : P value)
    {f : Option (Entries Value) → Reading α} (hnone : Cites P (f none))
    (hsome : ∀ es, es.Each P → Cites P (f (some es))) :
    Cites P (lift value.entries? >>= f) := by
  refine (traces_lift _).bind fun found hf => ?_
  have hf : value.entries? = .ok found := hf
  cases found with
  | none => exact hnone
  | some es => exact hsome es (ht.map (ht.entries h hf))

theorem reference_cites (ht : Value.Inherited P) (h : P value) :
    Cites P (reference value) := by
  refine cites_entries ht h (traces_pure _) fun es hes => ?_
  exact Traces.bind (cites_within (tokenOfText_cites _ (hes.field_getD "target" ht.null)) _)
    fun _ _ => traces_pure _

theorem memberTraits_cites (ht : Value.Inherited P) (h : es.Each P) :
    Cites P (memberTraits es) := by
  refine cites_entries ht (h.field_getD "traits" ht.empty) ?_ fun raw hraw => ?_
  · exact (traces_pure _).bind fun _ _ => traces_pure _
  · refine (traces_each fun e he => ?_).bind fun _ _ => traces_pure _
    refine Traces.bind (cites_within (token_cites .absoluteId (hraw e he).1) _) fun id _ => ?_
    cases id with
    | none => exact traces_pure _
    | some id => exact (traces_lift _).bind fun _ _ => (traces_lift _).bind fun _ _ => traces_pure _

theorem member_cites (ht : Value.Inherited P) (h : P value) :
    Cites P (member value) := by
  refine Traces.bind (reference_cites ht h) fun _ _ => ?_
  refine cites_entries ht h (traces_pure _) fun es hes => ?_
  exact Traces.bind (memberTraits_cites ht hes) fun _ _ => traces_pure _

theorem references_cites (ht : Value.Inherited P) (h : P value) :
    Cites P (references value) := by
  have each : ∀ items : List Value, (∀ item ∈ items, P item) →
      Cites P (some <$> Traced.each
        (fun item : Value × Nat => within [.int item.2] (reference item.1)) items.zipIdx) := by
    intro items hi
    refine Traces.map (traces_each fun item hm => cites_within (reference_cites ht ?_) _) _
    exact hi _ (List.mem_of_getElem? (List.mk_mem_zipIdx_iff_getElem?.mp hm))
  cases value with
  | list items => exact each items (ht.list h)
  | tuple items => exact each items (ht.tuple h)
  | pairs items => exact each items (ht.pairs h)
  | scalar s => exact traces_pure none
  | map es => exact traces_pure none
  | frozen es => exact traces_pure none

theorem mapping_cites (ht : Value.Inherited P) {entry : Key → Value → Reading (Option α)}
    (he : ∀ k v, P k.toValue → P v →
      Cites P (entry k v)) (h : P value) :
    Cites P (mapping entry value) := by
  refine cites_entries ht h (traces_pure _) fun es hes => ?_
  refine Traces.bind (traces_each fun e hm => ?_) fun _ _ => traces_pure _
  exact he e.1 e.2 (hes e hm).1 (hes e hm).2

theorem referenceMap_cites (ht : Value.Inherited P) (h : P value) :
    Cites P (referenceMap value) := by
  refine mapping_cites ht (fun k v hk hv => ?_) h
  unfold referenceEntry
  split
  · exact Traces.bind (cites_within (reference_cites ht hv) _) fun _ _ => traces_pure _
  · refine Traces.bind (cites_within (report_cites ?_) _) fun _ _ => traces_pure _
    exact List.forall_mem_singleton.mpr hk

theorem traitMap_cites (ht : Value.Inherited P) (h : P value) :
    Cites P (traitMap value) := by
  refine mapping_cites ht (fun k v hk _ => ?_) h
  refine Traces.bind (cites_within (token_cites .shapeId hk) _) fun id _ => ?_
  cases id with
  | none => exact traces_pure _
  | some id => exact (traces_lift _).bind fun _ _ => traces_pure _

theorem identifierMap_cites (ht : Value.Inherited P) (h : P value) :
    Cites P (identifierMap value) := by
  refine mapping_cites ht (fun k v hk hv => ?_) h
  refine Traces.bind (cites_within (token_cites .shapeId hk) _) fun id _ => ?_
  refine Traces.bind (cites_within (tokenOfText_cites .identifier hv) _) fun name _ => ?_
  cases id <;> cases name <;> exact traces_pure _

theorem memberMap_cites (ht : Value.Inherited P) (policy : NamingPolicy)
    (h : P value) : Cites P (memberMap policy value) := by
  cases hi : value.items? with
  | none =>
    unfold memberMap
    rw [hi]
    exact traces_pure _
  | some items =>
    unfold memberMap
    rw [hi]
    refine (traces_lift _).bind fun entries hs => ?_
    have pass := ht.split h hi hs
    refine Traces.bind (traces_emit_iff.mpr ?_) fun _ _ => ?_
    · exact MemberNames.issues_cite (List.forall_mem_map.mpr fun e he => (pass e he).1)
    refine Traces.bind (traces_each fun e he => ?_) fun _ _ => traces_pure _
    refine Traces.bind (cites_within (member_cites ht (pass e he).2) _) fun _ _ => ?_
    refine Traces.bind ?_ fun _ _ => traces_pure _
    unfold memberName
    split
    · exact traces_pure _
    · exact (traces_lift _).bind fun _ _ => traces_pure _

theorem content_cites (ht : Value.Inherited P) (kind : ContentKind)
    (h : P value) : Cites P (content kind value) := by
  cases kind with
  | text => exact traces_pure _
  | reference => exact Traces.map (reference_cites ht h) _
  | member => exact Traces.map (member_cites ht h) _
  | references => exact Traces.map (references_cites ht h) _
  | referenceMap => exact Traces.map (referenceMap_cites ht h) _
  | memberMap policy => exact Traces.map (memberMap_cites ht policy h) _
  | traitMap => exact Traces.map (traitMap_cites ht h) _
  | identifierMap => exact Traces.map (identifierMap_cites ht h) _

end Reading

namespace Draft
open Traced Value Reading
variable {P : Value → Prop} {es : Entries Value}

theorem readMixins_cites (ht : Value.Inherited P) (type : ShapeType)
    (h : es.Each P) : Reading.Cites P (readMixins type (.map es)) := by
  unfold readMixins
  split
  · refine (traces_lift _).bind fun found hf => ?_
    cases found with
    | none => exact traces_pure _
    | some v =>
      have hf : es.field? "mixins" = some v := Except.ok.inj hf
      exact Traces.bind (cites_within (references_cites ht (h.field? hf)) _)
        fun _ _ => traces_pure _
  · exact traces_pure _

theorem readField_cites (ht : Value.Inherited P) (field : Field) (h : es.Each P) :
    Reading.Cites P (readField (.map es) field) := by
  refine (traces_lift _).bind fun found hf => ?_
  cases found with
  | none => exact traces_pure _
  | some v =>
    have hf : es.field? field.name = some v := Except.ok.inj hf
    refine Traces.bind (cites_within (content_cites ht field.kind (h.field? hf)) _)
      fun content _ => ?_
    cases content with
    | none => exact traces_pure _
    | some content => exact (traces_lift _).bind fun _ _ => traces_pure _

theorem read_cites (ht : Value.Inherited P) (type : ShapeType) (h : es.Each P) :
    Reading.Cites P (read type (.map es)) :=
  Traces.bind (readMixins_cites ht type h) fun _ _ =>
    Traces.bind (traces_each fun field _ => readField_cites ht field h) fun _ _ => traces_pure _

end Draft

namespace Shape
open Traced Value
variable {P : Value → Prop} {node : Value}

theorem classify_cites (ht : Value.Inherited P) (h : P node)
    {issue : Issue} (hc : classify node = .ok (.error issue)) : issue.Cites P := by
  obtain ⟨found, hf, hc⟩ := Fault.bind_eq_ok_iff.mp hc
  cases found with
  | none =>
    cases hc
    exact ⟨.notAShape node, [], rfl, fun v hv => List.mem_singleton.mp hv ▸ h⟩
  | some es =>
    have pass := ht.map (ht.entries h hf)
    dsimp only at hc
    cases hfield : es.field? "type" with
    | none =>
      rw [hfield] at hc
      cases hc
      exact ⟨.typeMissing, _, rfl, fun _ hv => nomatch hv⟩
    | some value =>
      rw [hfield] at hc
      dsimp only at hc
      split at hc
      · cases hc
        exact ⟨.typeUnknown value, _, rfl, fun v hv =>
          List.mem_singleton.mp hv ▸ pass.field? hfield⟩
      · cases hc

/-- The issues of a definition cite only values with a property that the definition has. -/
theorem parse_cites [Visiting] (ht : Value.Inherited P) (h : P node)
    (path : Path) : Reading.Cites P (parse node path) := by
  refine (traces_lift _).bind fun found hc => ?_
  have hc : classify node = .ok found := hc
  cases found with
  | error issue =>
    refine Traces.bind (traces_emit_iff.mpr (List.forall_mem_singleton.mpr ?_))
      fun _ _ => traces_pure _
    exact (classify_cites ht h hc).under path
  | ok found =>
    obtain ⟨type, es⟩ := found
    have passes := ht.entries h (classify_eq_ok_iff.mp hc).1.entries?_eq
    refine (traces_lift _).bind fun plain hp => (traces_lift _).bind fun issues hi => ?_
    have hp : (Value.map es).HasPlain plain := hp
    have plain_passes := ht.plain passes hp
    refine List.forall_mem_append.mpr ⟨fun issue hmem => ?_, List.forall_mem_map.mpr ?_⟩
    · obtain ⟨c, hcomplaint, rfl⟩ := type.exists_complaint_of_mem hi issue hmem
      exact Issue.Cites.under ⟨c.finding, _, rfl,
        Check.ofShapeType_cites ht type plain plain_passes c hcomplaint⟩ path
    · exact fun issue hmem => (Draft.read_cites ht type (ht.map passes) issue hmem).under path

end Shape

end ServiceModel
