import ServiceModel.Proofs.Placement
import ServiceModel.Proofs.Shape.Forms
import ServiceModel.Proofs.Shape.Pointing
import ServiceModel.Proofs.Shape.Sites

/-!
# Every bad identifier is reported once

The issues about identifiers are those of the places where the rule is not met, in the order of the
places: none is missed beside something else that is wrong, none is reported twice, and there are no
others. The structural rules report none of them, and the reader reports no wrong type but that of
a key where a reference needs a name.
-/
namespace ServiceModel

/-- The kinds of issues about the form of a definition. -/
def Issue.Kind.structural : List Issue.Kind :=
  [.missingRequiredField, .unexpectedField, .invalidValueType]

section
variable [Visiting]

theorem Form.structural_of_mem_check (form : Form) (value : Value) :
    ∀ c ∈ form.check value, c.finding.kind ∈ Issue.Kind.structural := by
  have typed : ∀ type (value : Value), ∀ c ∈ Check.ofType type value,
      c.finding.kind ∈ Issue.Kind.structural := by
    intro type value c hc
    unfold Check.ofType at hc
    split at hc
    · cases hc
    · obtain rfl := List.mem_singleton.mp hc
      simp [Complaint.about, Finding.kind, Issue.Kind.structural]
  induction form using Form.induction generalizing value with
  | data type => exact typed type value
  | tag expected =>
    intro c hc
    unfold Form.check Check.tag at hc
    split at hc
    · cases hc
    · obtain rfl := List.mem_singleton.mp hc
      simp [Complaint.about, Finding.kind, Issue.Kind.structural]
  | record fields required ih =>
    rw [Form.check, Form.checks_eq_map]
    cases value with
    | map es =>
      intro c hc
      rcases List.mem_append.mp hc with hc | hunexpected
      · rcases List.mem_append.mp hc with hfield | hmissing
        · rw [List.flatMap_map] at hfield
          obtain ⟨f, hf, hc⟩ := List.mem_flatMap.mp hfield
          obtain ⟨v, -, d, hd, rfl⟩ := Check.mem_field_iff.mp hc
          exact ih f hf v d hd
        · obtain ⟨name, -, rfl⟩ := List.mem_map.mp hmissing
          simp [Complaint.aboutField, Finding.kind, Issue.Kind.structural]
      · obtain ⟨e, -, rfl⟩ := List.mem_map.mp hunexpected
        simp [Complaint.aboutField, Finding.kind, Issue.Kind.structural]
    | _ => exact typed .object _
  | listOf item ih =>
    rw [Form.check]
    cases value with
    | list items =>
      intro c hc
      obtain ⟨x, -, hc⟩ := List.mem_flatMap.mp hc
      obtain ⟨d, hd, rfl⟩ := List.mem_map.mp hc
      exact ih x.1 d hd
    | _ => exact typed .array _
  | mapOf form ih =>
    rw [Form.check]
    cases value with
    | map es =>
      intro c hc
      obtain ⟨e, -, hc⟩ := List.mem_flatMap.mp hc
      obtain ⟨d, hd, rfl⟩ := List.mem_map.mp hc
      unfold Complaint.underKey
      split
      · exact ih e.2 d hd
      · exact ih e.2 d hd
    | _ => exact typed .object _

theorem ShapeType.structural_of_mem (type : ShapeType) {path : Path} {plain : Value}
    {issues : List Issue} (h : type.structuralIssuesAt path plain = .ok issues) :
    ∀ issue ∈ issues, issue.kind ∈ Issue.Kind.structural := by
  intro issue hi
  obtain ⟨c, hc, rfl⟩ := type.exists_complaint_of_mem h issue hi
  rw [← Form.check_ofShapeType] at hc
  exact Form.structural_of_mem_check _ _ c hc

/-- The structural issues of a definition come first, then those of what is read. -/
theorem Shape.parse_of_readable {node : Value} {path : Path} {type : ShapeType} {es : Entries Value}
    (hw : node.isWellFormed = true) (hr : Readable.definition node) (hm : node.Maps es)
    (ht : es.field? "type" = some (.str type.tag))
    (hpath : ∀ token ∈ path, ∃ key : Key, token = key.toValue) :
    ∃ plain shape structural, node.HasPlain plain ∧
      type.structuralIssuesAt path plain = .ok structural ∧ (Draft.read type (.map es)).Ends ∧
      parse node path =
        ⟨structural ++ (Draft.read type (.map es)).trace.map (.under path), .ok shape⟩ := by
  have hc := classify_eq_ok_iff.mpr ⟨hm, ht⟩
  obtain ⟨shape, hs⟩ := (parse_ends_iff hw hpath).mpr hr
  obtain ⟨plain, hp⟩ := Value.exists_hasPlain_of_isWellFormed hw
  obtain ⟨structural, hi⟩ := structuralIssuesAt_ends type plain hpath
  have hread := (Draft.read_ends_iff (hm.lists.isWellFormed hw)).mpr (hr.2 type es hc)
  obtain ⟨ps, hq, rfl⟩ := hm.hasPlain_iff.mp hp
  have run := parse_of_classified hc (Value.hasPlain_map_iff.mpr ⟨ps, hq, rfl⟩) hi
  refine ⟨_, shape, structural, hp, hi, hread, ?_⟩
  rw [run] at hs ⊢
  exact congrArg (Traced.mk _) hs

theorem lexical_issues_exact (type : ShapeType) {node : Value} {es : Entries Value} {path : Path}
    (hw : node.isWellFormed = true) (hp : node.isPairFree = true) (hm : node.IsMapping es)
    (ht : es.field? "type" = some (.str type.tag))
    (hpath : ∀ token ∈ path, ∃ key : Key, token = key.toValue) :
    ∃ plain shape structural read, node.HasPlain plain ∧
      type.structuralIssuesAt path plain = .ok structural ∧
      Shape.parse node path = ⟨structural ++ read, .ok shape⟩ ∧
      (∀ issue ∈ structural, issue.kind ≠ .lexical) ∧
      Issue.ofKind .lexical (structural ++ read) =
        (Site.reports (Site.ofDefinition type es)).map (.under path) ∧
      Issue.ofKind .invalidValueType read =
        (Site.straysOfDefinition type es).map (.under path) := by
  have readable : Readable.definition node := Readable.definition_of_placed (.inl hp)
  obtain ⟨plain, shape, structural, hplain, hi, hread, run⟩ :=
    Shape.parse_of_readable hw readable hm.maps ht hpath
  have apart : ∀ issue ∈ structural, issue.kind ≠ .lexical := by
    intro issue hmem hk
    have hs := type.structural_of_mem hi issue hmem
    rw [hk] at hs
    revert hs
    decide
  refine ⟨plain, shape, structural, _, hplain, hi, run, apart, ?_, ?_⟩
  · rw [Issue.ofKind_append, Issue.ofKind_eq_nil apart, List.nil_append, Issue.ofKind_under,
      (Draft.read_ofKind hread).1]
  · rw [Issue.ofKind_under, (Draft.read_ofKind hread).2]

end

open scoped Visiting in
/-- A target without a namespace beside items that are no references, a bad target beside a key that
is no name, and bad keys beside a value that is no identifier either. -/
theorem lexical_issues_exact_of_resource :
    ∃ (node : Value) (shape : Option Shape) (structural read : List Issue),
      node = .map [(.str "type", .str "resource"),
        (.str "mixins", .list [.int 3, .map [(.str "target", .str "Local")]]),
        (.str "identifiers", .map [(.int 1, .map [(.str "target", .str "x y")]),
          (.str "id", .map [(.str "target", .str "x y")])]),
        (.str "create", .map [(.str "target", .int 5)]),
        (.str "traits", .frozen [(.str "a#b", .null), (.scalar .null, .null)])] ∧
      Shape.parse node [.str "p"] = ⟨structural ++ read, .ok shape⟩ ∧
      Issue.ofKind .lexical (structural ++ read) =
        [(Finding.badToken ⟨.str "Local", .absoluteId⟩).issueAt
            [.str "p", .str "mixins", .int 1, .str "target"],
          (Finding.badToken ⟨.str "x y", .absoluteId⟩).issueAt
            [.str "p", .str "identifiers", .str "id", .str "target"],
          (Finding.badToken ⟨.null, .shapeId⟩).issueAt [.str "p", .str "traits", .str "None"]] ∧
      Issue.ofKind .invalidValueType read =
        [(Finding.keyNotText (.int 1)).issueAt [.str "p", .str "identifiers", .str "1"]] := by
  generalize hnode : Value.map [(.str "type", .str "resource"),
      (.str "mixins", .list [.int 3, .map [(.str "target", .str "Local")]]),
      (.str "identifiers", .map [(.int 1, .map [(.str "target", .str "x y")]),
        (.str "id", .map [(.str "target", .str "x y")])]),
      (.str "create", .map [(.str "target", .int 5)]),
      (.str "traits", .frozen [(.str "a#b", .null), (.scalar .null, .null)])] = node
  have hw : node.isWellFormed = true := by
    subst hnode
    decide
  have hp : node.isPairFree = true := by
    subst hnode
    decide
  have hpath : ∀ token ∈ ([.str "p"] : Path), ∃ key : Key, token = key.toValue :=
    List.forall_mem_singleton.mpr ⟨.str "p", rfl⟩
  obtain ⟨_, shape, structural, read, -, -, run, -, lexical, strays⟩ :=
    lexical_issues_exact .resource hw hp (.inl hnode.symm) rfl hpath
  exact ⟨node, shape, structural, read, rfl, run, lexical.trans (by rfl), strays.trans (by rfl)⟩

end ServiceModel
