import ServiceModel.Proofs.Shape.Readable
import ServiceModel.Proofs.Value.Decoded
import ServiceModel.Proofs.Value.Walk

/-!
# Issues that point at what they complain about

The path of an issue leads from the document to the node that the issue is about, and the values of
the issue are those that stand there. What an issue says of its node is fixed by its kind. It is
shown of every check and of every reader, for the node that it is given; the tokens put in front on
the way up are those that lead down to that node.
-/
namespace ServiceModel

namespace Issue
open Value

/-- The path ends with a name, and what comes before leads to a mapping that lacks it. -/
def Lacks (document : Value) (path : Path) (name : String) : Prop :=
  ∃ parent node es, path = parent ++ [.str name] ∧ document.at? parent = some node ∧
    node.IsMapping es ∧ es.field? name = none

/-- What an issue of a document says of the node that its path leads to. -/
def PointsInto (document : Value) (issue : Issue) : Prop :=
  match issue.kind with
  | .missingRequiredField => ∃ name, Lacks document issue.path name
  | .unknownShapeType =>
    (∃ found, document.at? issue.path = some found) ∨ Lacks document issue.path "type"
  | .invalidValueType => ∃ found value plain, document.at? issue.path = some found ∧
      issue.values = [value] ∧ value.HasPlain plain ∧ found.HasPlain plain
  | .unexpectedField => ∃ parent name node es found, issue.path = parent ++ [.str name] ∧
      document.at? parent = some node ∧ node.IsMapping es ∧ es.field? name = some found ∧
      issue.values = [.str name]
  | .lexical => ∃ found value rule, document.at? issue.path = some found ∧
      issue.values = [value, .str (Rule.name rule)] ∧
      Token.parse rule value = .error ⟨value, rule⟩ ∧
      (value = found ∨ ∃ parent, issue.path = parent ++ [value])
  | .duplicateMember => ∃ found es, document.at? issue.path = some found ∧ found.IsMapping es ∧
      ∀ value ∈ issue.values, ∃ e ∈ es, value = e.1.toValue
  | .emptyMemberSet => ∃ found, document.at? issue.path = some found ∧ found.IsMapping []
  | .invalidEnumMemberName | .duplicateShapeId =>
    ∃ found, document.at? issue.path = some found

/-- An issue of a node is one of the document that the node is in. -/
theorem PointsInto.under {document node : Value} {path : Path} {issue : Issue}
    (h : document.at? path = some node) (hi : issue.PointsInto node) :
    (issue.under path).PointsInto document := by
  have walk : ∀ p, document.at? (path ++ p) = node.at? p := by
    intro p
    rw [at?_append, h]
    rfl
  have lacks : ∀ p name, Lacks node p name → Lacks document (path ++ p) name := by
    rintro p name ⟨parent, inner, es, rfl, hp, hm, hn⟩
    exact ⟨path ++ parent, inner, es, (List.append_assoc ..).symm, walk parent ▸ hp, hm, hn⟩
  obtain ⟨kind, p, message, values⟩ := issue
  cases kind with
  | missingRequiredField => exact hi.imp fun name => lacks p name
  | unknownShapeType => exact hi.imp (fun ⟨found, hf⟩ => ⟨found, (walk p).trans hf⟩) (lacks p _)
  | invalidValueType =>
    obtain ⟨found, value, plain, hf, hv⟩ := hi
    exact ⟨found, value, plain, (walk p).trans hf, hv⟩
  | unexpectedField =>
    obtain ⟨parent, name, inner, es, found, hpath, hp, hm⟩ := hi
    obtain rfl : p = _ := hpath
    exact ⟨path ++ parent, name, inner, es, found, (List.append_assoc ..).symm,
      (walk parent).trans hp, hm⟩
  | lexical =>
    obtain ⟨found, value, rule, hf, hv, hrefused, hplace⟩ := hi
    refine ⟨found, value, rule, (walk p).trans hf, hv, hrefused, hplace.imp_right ?_⟩
    rintro ⟨parent, hpath⟩
    obtain rfl : p = _ := hpath
    exact ⟨path ++ parent, (List.append_assoc ..).symm⟩
  | duplicateMember =>
    obtain ⟨found, es, hf, hm⟩ := hi
    exact ⟨found, es, (walk p).trans hf, hm⟩
  | emptyMemberSet =>
    obtain ⟨found, hf, hm⟩ := hi
    exact ⟨found, (walk p).trans hf, hm⟩
  | invalidEnumMemberName =>
    obtain ⟨found, hf⟩ := hi
    exact ⟨found, (walk p).trans hf⟩
  | duplicateShapeId =>
    obtain ⟨found, hf⟩ := hi
    exact ⟨found, (walk p).trans hf⟩

end Issue

namespace Check
open Value Issue

/-- The complaints of a check about the plain form of a node are issues of the node. -/
def Points (check : Check) : Prop :=
  ∀ value plain : Value, value.Walkable → value.HasPlain plain →
    ∀ c ∈ check plain, c.issue.PointsInto value

theorem ofType_points (type : DataType) : (ofType type).Points := by
  intro value plain _ hp c hc
  unfold ofType at hc
  split at hc
  · cases hc
  · obtain rfl := List.mem_singleton.mp hc
    exact ⟨value, plain, plain, rfl, rfl, hp.plain, hp⟩

theorem tag_points (expected : String) : (tag expected).Points := by
  intro value plain _ hp c hc
  unfold tag at hc
  split at hc
  · cases hc
  · obtain rfl := List.mem_singleton.mp hc
    exact ⟨value, plain, plain, rfl, rfl, hp.plain, hp⟩

/-- A record is looked at field by field, whatever is seen of each field. -/
theorem points_of_fields {fields : List (String × Check)} {required : List String} {node : Value}
    {es ps : Entries Value} {R : Key → Value → Value → Prop} (hm : node.IsMapping es)
    (ht : ∀ e ∈ es, e.1.IsText) (hq : Entries.PointwiseAt R es ps)
    (hf : ∀ f ∈ fields, ∀ v p, es.field? f.1 = some v → R (.str f.1) v p →
      ∀ c ∈ f.2 p, c.issue.PointsInto v) :
    ∀ c ∈ record fields required (.map ps), c.issue.PointsInto node := by
  intro c hc
  rcases List.mem_append.mp hc with hc | hunexpected
  · rcases List.mem_append.mp hc with hfield | hmissing
    · obtain ⟨f, hmem, hc⟩ := List.mem_flatMap.mp hfield
      obtain ⟨p, hp, d, hd, rfl⟩ := mem_field_iff.mp hc
      obtain ⟨v, hv, hR⟩ := hq.field?_of_right hp
      exact (hf f hmem v p hv hR d hd).under ((hm.at?_name f.1).trans hv)
    · obtain ⟨name, hname, rfl⟩ := List.mem_map.mp hmissing
      have absent : ps.field? name = none := by simpa using (List.mem_filter.mp hname).2
      exact ⟨name, [], node, es, rfl, rfl, hm, hq.flip.field?_none absent⟩
  · obtain ⟨q, hmem, rfl⟩ := List.mem_map.mp hunexpected
    obtain ⟨e, he, hk, -⟩ := hq.exists_of_mem_right (List.mem_filter.mp hmem).1
    obtain ⟨name, hname⟩ := ht e he
    obtain ⟨found, hfound⟩ : ∃ found, es.field? name = some found :=
      Option.ne_none_iff_exists'.mp fun hn => Entries.field?_eq_none_iff.mp hn e he hname
    have path : q.1.toValue = .str name := by rw [← hk, hname]; rfl
    refine ⟨[], name, node, es, found, ?_, rfl, hm, hfound, ?_⟩
    · exact congrArg (fun token => [token]) path
    · exact congrArg (fun token => [token]) path

theorem exists_mapping_of_hasPlain {value : Value} {ps : Entries Value} (hv : value.Walkable)
    (hp : value.HasPlain (.map ps)) :
    ∃ es, value.IsMapping es ∧ Entries.Pointwise HasPlain es ps := by
  obtain ⟨es, hl⟩ := exists_lists_of_isWellFormed hv.wellFormed hp.hasEntries
  have hm := IsMapping.of_lists hv.pairFree hl
  obtain ⟨qs, hq, he⟩ := hm.maps.hasPlain_iff.mp hp
  cases he
  exact ⟨es, hm, hq⟩

theorem record_points {fields : List (String × Check)} (h : ∀ f ∈ fields, f.2.Points)
    (required : List String) : (record fields required).Points := by
  intro value plain hv hp
  cases plain with
  | map ps =>
    obtain ⟨es, hm, hq⟩ := exists_mapping_of_hasPlain hv hp
    exact points_of_fields hm (hv.texts hm) hq fun f hmem v p hfield =>
      h f hmem v p (hv.field hm hfield)
  | _ => exact ofType_points .object value _ hv hp

theorem arrayOf_points {check : Check} (h : check.Points) : (arrayOf check).Points := by
  intro value plain hv hp
  cases plain with
  | list ps =>
    obtain ⟨items, hi, hq⟩ := hp.items
    intro c hc
    obtain ⟨⟨p, n⟩, hn, hc⟩ := List.mem_flatMap.mp hc
    obtain ⟨d, hd, rfl⟩ := List.mem_map.mp hc
    have same := hq.getElem? n
    rw [List.mk_mem_zipIdx_iff_getElem?.mp hn] at same
    cases hitem : items[n]? with
    | none =>
      rw [hitem] at same
      cases same
    | some item =>
      rw [hitem] at same
      obtain ⟨hplain⟩ := same
      exact (h item p (hv.parts hi item (List.mem_of_getElem? hitem)) hplain d hd).under
        ((hi.at?_position n).trans hitem)
  | _ => exact ofType_points .array value _ hv hp

theorem mapOf_points [Visiting] {check : Check} (h : check.Points) : (mapOf check).Points := by
  intro value plain hv hp
  cases plain with
  | map ps =>
    obtain ⟨es, hm, hq⟩ := exists_mapping_of_hasPlain hv hp
    intro c hc
    obtain ⟨q, hmem, hc⟩ := List.mem_flatMap.mp hc
    obtain ⟨d, hd, rfl⟩ := List.mem_map.mp hc
    obtain ⟨e, he, hk, hplain⟩ := hq.exists_of_mem_right (Visiting.mem_order_iff.mp hmem)
    obtain ⟨name, hname, hat⟩ := hv.exists_at? hm e he
    rw [← hk, hname]
    exact (h e.2 q.2 (hv.entries hm e he) hplain d hd).under hat
  | _ => exact ofType_points .object value _ hv hp

theorem textKeyed_points : textKeyed.Points := by
  intro value plain hv hp
  cases plain with
  | map ps =>
    obtain ⟨es, hm, hq⟩ := exists_mapping_of_hasPlain hv hp
    rw [textKeyed_eq_nil_iff.mpr ⟨ps, rfl, (hq.forall_keys_iff Key.IsText).mp (hv.texts hm)⟩]
    exact fun c hc => nomatch hc
  | _ => exact ofType_points .object value _ hv hp

theorem reference_points : reference.Points :=
  record_points (List.forall_mem_singleton.mpr (ofType_points .string)) _

theorem member_points : member.Points :=
  record_points (List.forall_mem_cons.mpr ⟨ofType_points .string,
    List.forall_mem_singleton.mpr (ofType_points .object)⟩) _

theorem ofKind_points [Visiting] (kind : ContentKind) : (ofKind kind).Points := by
  cases kind with
  | text => exact ofType_points .string
  | reference => exact reference_points
  | member => exact member_points
  | references => exact arrayOf_points reference_points
  | referenceMap => exact mapOf_points reference_points
  | memberMap _ => exact mapOf_points member_points
  | traitMap => exact ofType_points .object
  | identifierMap => exact mapOf_points (ofType_points .string)

theorem ofShapeType_points [Visiting] (type : ShapeType) : (ofShapeType type).Points := by
  refine record_points (fun f hf => ?_) _
  rcases List.mem_append.mp hf with hf | hf
  · rcases List.mem_cons.mp hf with rfl | hf
    · exact tag_points type.tag
    · split at hf
      · obtain rfl := List.mem_singleton.mp hf
        exact ofKind_points .references
      · cases hf
  · obtain ⟨field, -, rfl⟩ := List.mem_map.mp hf
    exact ofKind_points field.kind

end Check

namespace ShapeType
open Value
variable [Visiting]

theorem exists_complaint_of_mem (type : ShapeType) {path : Path} {plain : Value}
    {issues : List Issue} (h : type.structuralIssuesAt path plain = .ok issues) :
    ∀ issue ∈ issues, ∃ c ∈ Check.ofShapeType type plain, issue = c.issue.under path := by
  intro issue hi
  unfold structuralIssuesAt at h
  rw [structuralIssues_eq] at h
  dsimp only at h
  split at h
  · obtain rfl := Except.ok.inj h
    obtain ⟨found, hf, rfl⟩ := List.mem_map.mp hi
    obtain ⟨c, hc, rfl⟩ := List.mem_map.mp (Issue.firsts_subset _ hf)
    exact ⟨c, (Complaint.ordered_perm _).mem_iff.mp hc, rfl⟩
  · cases h

end ShapeType

theorem Token.eq_of_parse_eq_error {rule : Rule} {value : Value} {refusal : Refusal}
    (h : Token.parse rule value = .error refusal) : refusal = ⟨value, rule⟩ := by
  unfold parse at h
  split at h
  · split at h
    · cases h
    · exact (Except.error.inj h).symm
  · exact (Except.error.inj h).symm

namespace MemberNames
open Value Issue

theorem subset_of_mem_groups {keys : List Value} :
    ∀ group ∈ groups keys, group.2 ⊆ keys := by
  have added : ∀ (gs : List (List Char × List Value)) (key : Value) (all : List Value),
      (∀ group ∈ gs, group.2 ⊆ all) → key ∈ all → ∀ group ∈ addToGroups gs key, group.2 ⊆ all := by
    intro gs key all h hk
    induction gs with
    | nil => simpa [addToGroups] using hk
    | cons group rest ih =>
      obtain ⟨form, names⟩ := group
      obtain ⟨hn, hr⟩ := List.forall_mem_cons.mp h
      unfold addToGroups
      split
      · exact List.forall_mem_cons.mpr ⟨List.append_subset.mpr ⟨hn, by simpa using hk⟩, hr⟩
      · exact List.forall_mem_cons.mpr ⟨hn, ih hr⟩
  have run : ∀ (rest : List Value) (gs : List (List Char × List Value)), rest ⊆ keys →
      (∀ group ∈ gs, group.2 ⊆ keys) →
      ∀ group ∈ rest.foldl addToGroups gs, group.2 ⊆ keys := by
    intro rest
    induction rest with
    | nil => exact fun _ _ h => h
    | cons key more ih =>
      intro gs hs h
      obtain ⟨hk, hm⟩ := List.cons_subset.mp hs
      exact ih _ hm (added gs key keys h hk)
  exact run keys [] (List.Subset.refl _) (by simp)

theorem issues_pointInto {policy : NamingPolicy} {value : Value} {es : Entries Value}
    (hv : value.Walkable) (hm : value.IsMapping es) :
    ∀ issue ∈ issues policy (es.map (·.1.toValue)), issue.PointsInto value := by
  intro issue hi
  rcases List.mem_append.mp hi with hi | hcollision
  · rcases List.mem_append.mp hi with hempty | hkey
    · unfold emptinessIssues at hempty
      split at hempty
      · rename_i h
        obtain rfl := List.mem_singleton.mp hempty
        obtain rfl : es = [] := by simpa using (Bool.and_eq_true_iff.mp h).2
        exact ⟨value, rfl, hm⟩
      · cases hempty
    · obtain ⟨key, hmem, hi⟩ := List.mem_flatMap.mp hkey
      obtain ⟨e, he, rfl⟩ := List.mem_map.mp hmem
      obtain ⟨name, hname, hat⟩ := hv.exists_at? hm e he
      rw [hname] at hi
      unfold keyIssues at hi
      split at hi
      · rename_i h
        obtain rfl := List.mem_singleton.mp hi
        have refused : Token.parse .identifier (.str name) = .error ⟨.str name, .identifier⟩ := by
          have h : Rule.identifier.accepts name.toList = false := (Bool.not_eq_true' _).mp h
          simp [Token.parse, Token.read?, h]
        exact ⟨_, _, .identifier, hat, rfl, refused, .inr ⟨[], rfl⟩⟩
      · split at hi
        · obtain rfl := List.mem_singleton.mp hi
          exact ⟨_, hat⟩
        · cases hi
  · obtain ⟨group, hg, rfl⟩ := List.mem_map.mp hcollision
    refine ⟨value, es, rfl, hm, fun key hk => ?_⟩
    obtain ⟨e, he, rfl⟩ := List.mem_map.mp
      (subset_of_mem_groups group (mem_groups_of_mem_collisions hg) hk)
    exact ⟨e, he, rfl⟩

end MemberNames

namespace Reading
open Traced Value Issue
variable {α : Type} {value : Value} {es : Entries Value}

/-- Every issue that is found points into the value. -/
def PointsInto (value : Value) (reading : Reading α) : Prop :=
  reading.Traces fun issue => issue.PointsInto value

theorem pointsInto_within {node : Value} {path : Path} {reading : Reading α}
    (hat : value.at? path = some node) (h : PointsInto node reading) :
    PointsInto value (within path reading) :=
  traces_relabel_iff.mpr fun issue hi => (h issue hi).under hat

theorem token_pointsInto (rule : Rule) {token found : Value} {path : Path}
    (hat : value.at? path = some found)
    (hplace : token = found ∨ ∃ parent, path = parent ++ [token]) :
    PointsInto value (within path (Reading.token rule token)) := by
  refine traces_relabel_iff.mpr ?_
  unfold Reading.token
  split
  · exact traces_pure _
  · rename_i refusal h
    obtain rfl := Token.eq_of_parse_eq_error h
    refine Traces.bind (traces_emit_iff.mpr (List.forall_mem_singleton.mpr ?_))
      fun _ _ => traces_pure _
    rw [Finding.under_issueAt, List.append_nil]
    exact ⟨found, token, rule, hat, rfl, h, hplace⟩

theorem tokenOfText_pointsInto (rule : Rule) {found : Value} {path : Path}
    (hat : value.at? path = some found) :
    PointsInto value (within path (tokenOfText rule found)) := by
  unfold tokenOfText
  split
  · exact token_pointsInto rule hat (.inl rfl)
  · exact traces_relabel_iff.mpr (traces_pure _)

/-- A reader of entries is looked at for the entries of a mapping only. -/
theorem pointsInto_entries {f : Option (Entries Value) → Reading α} (hv : value.Walkable)
    (hnone : PointsInto value (f none))
    (hsome : ∀ es, value.IsMapping es → PointsInto value (f (some es))) :
    PointsInto value (lift value.entries? >>= f) := by
  refine (traces_lift _).bind fun found hf => ?_
  have hf : value.entries? = .ok found := hf
  cases found with
  | none => exact hnone
  | some es => exact hsome es (hv.isMapping_of_entries? hf)

theorem reference_pointsInto (hv : value.Walkable) : PointsInto value (reference value) := by
  refine pointsInto_entries hv (traces_pure _) fun es hm => ?_
  refine Traces.bind ?_ fun _ _ => traces_pure _
  cases ht : es.field? "target" with
  | none => exact traces_relabel_iff.mpr (traces_pure _)
  | some target => exact tokenOfText_pointsInto .absoluteId ((hm.at?_name _).trans ht)

theorem memberTraits_pointsInto (hv : value.Walkable) (hm : value.IsMapping es) :
    PointsInto value (memberTraits es) := by
  refine (traces_lift _).bind fun raw hraw => ?_
  refine Traces.bind (traces_each fun e he => ?_) fun _ _ => traces_pure _
  obtain ⟨name, hname, hat⟩ :
      ∃ name, e.1 = .str name ∧ value.at? [.str "traits", .str name] = some e.2 := by
    have hraw : ((es.field? "traits").getD (.map [])).entries? = .ok raw := hraw
    cases ht : es.field? "traits" with
    | none =>
      rw [ht] at hraw
      cases hraw
      cases he
    | some traits =>
      rw [ht] at hraw
      cases raw with
      | none => cases he
      | some ts =>
        have walk := hv.field hm ht
        obtain ⟨name, hname, hat⟩ := walk.exists_at? (walk.isMapping_of_entries? hraw) e he
        refine ⟨name, hname, (at?_append value [.str "traits"] [.str name]).trans ?_⟩
        rw [(hm.at?_name _).trans ht]
        exact hat
  unfold memberTrait
  rw [hname]
  refine Traces.bind (token_pointsInto .absoluteId hat (.inr ⟨[.str "traits"], rfl⟩)) fun id _ => ?_
  cases id with
  | none => exact traces_pure _
  | some id => exact (traces_lift _).bind fun _ _ => (traces_lift _).bind fun _ _ => traces_pure _

theorem member_pointsInto (hv : value.Walkable) : PointsInto value (member value) := by
  refine Traces.bind (reference_pointsInto hv) fun _ _ => ?_
  refine pointsInto_entries hv (traces_pure _) fun es hm => ?_
  exact Traces.bind (memberTraits_pointsInto hv hm) fun _ _ => traces_pure _

theorem references_pointsInto (hv : value.Walkable) : PointsInto value (references value) := by
  have each : ∀ items, value.Items items → PointsInto value (some <$> Traced.each
      (fun item : Value × Nat => within [.int item.2] (reference item.1)) items.zipIdx) := by
    intro items hi
    refine Traces.map (traces_each fun item hmem => ?_) _
    have hat := List.mk_mem_zipIdx_iff_getElem?.mp hmem
    exact pointsInto_within ((hi.at?_position item.2).trans hat)
      (reference_pointsInto (hv.parts hi item.1 (List.mem_of_getElem? hat)))
  cases value with
  | list items => exact each items (.list items)
  | tuple items => exact each items (.tuple items)
  | pairs items => cases hv.pairFree
  | scalar s => exact traces_pure none
  | map es => exact traces_pure none
  | frozen es => exact traces_pure none

theorem mapping_pointsInto {entry : Key → Value → Reading (Option α)} (hv : value.Walkable)
    (h : ∀ (name : String) v, v.Walkable → value.at? [.str name] = some v →
      PointsInto value (entry (.str name) v)) : PointsInto value (mapping entry value) := by
  refine pointsInto_entries hv (traces_pure _) fun es hm => ?_
  refine Traces.bind (traces_each fun e he => ?_) fun _ _ => traces_pure _
  obtain ⟨name, hname, hat⟩ := hv.exists_at? hm e he
  rw [hname]
  exact h name e.2 (hv.entries hm e he) hat

theorem referenceMap_pointsInto (hv : value.Walkable) : PointsInto value (referenceMap value) :=
  mapping_pointsInto hv fun _ _ hw hat =>
    Traces.bind (pointsInto_within hat (reference_pointsInto hw)) fun _ _ => traces_pure _

theorem traitMap_pointsInto (hv : value.Walkable) : PointsInto value (traitMap value) := by
  refine mapping_pointsInto hv fun name v _ hat => ?_
  refine Traces.bind (token_pointsInto .shapeId hat (.inr ⟨[], rfl⟩)) fun id _ => ?_
  cases id with
  | none => exact traces_pure _
  | some id => exact (traces_lift _).bind fun _ _ => traces_pure _

theorem identifierMap_pointsInto (hv : value.Walkable) :
    PointsInto value (identifierMap value) := by
  refine mapping_pointsInto hv fun name v _ hat => ?_
  refine Traces.bind (token_pointsInto .shapeId hat (.inr ⟨[], rfl⟩)) fun id _ => ?_
  refine Traces.bind (tokenOfText_pointsInto .identifier hat) fun name _ => ?_
  cases id <;> cases name <;> exact traces_pure _

theorem memberMap_pointsInto (policy : NamingPolicy) (hv : value.Walkable) :
    PointsInto value (memberMap policy value) := by
  cases hentries : value.hasEntries with
  | false =>
    rw [memberMap_of_not_hasEntries hentries]
    exact traces_pure _
  | true =>
    obtain ⟨es, hl⟩ := exists_lists_of_isWellFormed hv.wellFormed hentries
    have hm := IsMapping.of_lists hv.pairFree hl
    rw [memberMap_of_lists hl]
    refine Traces.bind (traces_emit_iff.mpr (MemberNames.issues_pointInto hv hm)) fun _ _ => ?_
    refine Traces.bind (traces_each fun e he => ?_) fun _ _ => traces_pure _
    obtain ⟨name, hname, hat⟩ := hv.exists_at? hm e he
    unfold memberEntry
    rw [hname]
    refine Traces.bind (pointsInto_within hat (member_pointsInto (hv.entries hm e he)))
      fun _ _ => ?_
    refine Traces.bind ?_ fun _ _ => traces_pure _
    unfold memberName
    split
    · exact traces_pure _
    · exact (traces_lift _).bind fun _ _ => traces_pure _

theorem content_pointsInto (kind : ContentKind) (hv : value.Walkable) :
    PointsInto value (content kind value) := by
  cases kind with
  | text => exact traces_pure _
  | reference => exact Traces.map (reference_pointsInto hv) _
  | member => exact Traces.map (member_pointsInto hv) _
  | references => exact Traces.map (references_pointsInto hv) _
  | referenceMap => exact Traces.map (referenceMap_pointsInto hv) _
  | memberMap policy => exact Traces.map (memberMap_pointsInto policy hv) _
  | traitMap => exact Traces.map (traitMap_pointsInto hv) _
  | identifierMap => exact Traces.map (identifierMap_pointsInto hv) _

end Reading

namespace Draft
open Traced Value Reading
variable {node : Value} {es : Entries Value}

theorem readMixins_pointsInto (type : ShapeType) (hv : node.Walkable) (hm : node.IsMapping es) :
    Reading.PointsInto node (readMixins type (.map es)) := by
  unfold readMixins
  split
  · refine (traces_lift _).bind fun found hf => ?_
    cases found with
    | none => exact traces_pure _
    | some v =>
      have hf : es.field? "mixins" = some v := Except.ok.inj hf
      exact Traces.bind (pointsInto_within ((hm.at?_name _).trans hf)
        (references_pointsInto (hv.field hm hf))) fun _ _ => traces_pure _
  · exact traces_pure _

theorem readField_pointsInto (field : Field) (hv : node.Walkable) (hm : node.IsMapping es) :
    Reading.PointsInto node (readField (.map es) field) := by
  refine (traces_lift _).bind fun found hf => ?_
  cases found with
  | none => exact traces_pure _
  | some v =>
    have hf : es.field? field.name = some v := Except.ok.inj hf
    refine Traces.bind (pointsInto_within ((hm.at?_name _).trans hf)
      (content_pointsInto field.kind (hv.field hm hf))) fun content _ => ?_
    cases content with
    | none => exact traces_pure _
    | some content => exact (traces_lift _).bind fun _ _ => traces_pure _

theorem read_pointsInto (type : ShapeType) (hv : node.Walkable) (hm : node.IsMapping es) :
    Reading.PointsInto node (read type (.map es)) :=
  Traces.bind (readMixins_pointsInto type hv hm) fun _ _ =>
    Traces.bind (traces_each fun field _ => readField_pointsInto field hv hm) fun _ _ =>
      traces_pure _

end Draft

namespace Shape
open Traced Value
variable {node : Value}

theorem classify_pointsInto {issue : Issue} (hv : node.Walkable)
    (h : classify node = .ok (.error issue)) : issue.PointsInto node := by
  obtain ⟨found, hf, h⟩ := Fault.bind_eq_ok_iff.mp h
  cases found with
  | none =>
    cases h
    exact .inl ⟨node, rfl⟩
  | some es =>
    have hm := hv.isMapping_of_entries? hf
    dsimp only at h
    cases ht : es.field? "type" with
    | none =>
      rw [ht] at h
      cases h
      exact .inr ⟨[], node, es, rfl, rfl, hm, ht⟩
    | some value =>
      rw [ht] at h
      dsimp only at h
      split at h
      · cases h
        exact .inl ⟨value, (hm.at?_name _).trans ht⟩
      · cases h

/-- Every issue of a definition points into the document that the definition is in. -/
theorem parse_pointsInto [Visiting] {document : Value} {path : Path} (hv : node.Walkable)
    (hat : document.at? path = some node) : Reading.PointsInto document (parse node path) := by
  refine (traces_lift _).bind fun found hc => ?_
  have hc : classify node = .ok found := hc
  cases found with
  | error issue =>
    refine Traces.bind (traces_emit_iff.mpr (List.forall_mem_singleton.mpr ?_))
      fun _ _ => traces_pure _
    exact (classify_pointsInto hv hc).under hat
  | ok found =>
    obtain ⟨type, es⟩ := found
    have hm := IsMapping.of_maps hv.pairFree (classify_eq_ok_iff.mp hc).1
    refine (traces_lift _).bind fun plain hp => (traces_lift _).bind fun issues hi => ?_
    have hp : node.HasPlain plain := hm.maps.hasPlain_iff.mpr (hasPlain_map_iff.mp hp)
    refine List.forall_mem_append.mpr ⟨fun issue hmem => ?_, List.forall_mem_map.mpr ?_⟩
    · obtain ⟨c, hcomplaint, rfl⟩ := type.exists_complaint_of_mem hi issue hmem
      exact (Check.ofShapeType_points type node plain hv hp c hcomplaint).under hat
    · exact fun issue hmem => (Draft.read_pointsInto type hv hm issue hmem).under hat

end Shape

end ServiceModel
