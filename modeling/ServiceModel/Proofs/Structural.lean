import ServiceModel.Proofs.Shape.Apart
import ServiceModel.Proofs.Shape.Ends
import ServiceModel.Proofs.Shape.Violations

/-!
# The structural pass is exact

Without null keys in the way, the structural issues of a definition are the violations of the form
of its type: one issue for each, at its place, in the order of the objects at fault. Neither the
order nor the removal of issues that are alike loses or adds one.
-/
namespace ServiceModel

theorem Value.equalAll_of_append {p q : List Value} (path : List Value)
    (h : equalAll (path ++ p) (path ++ q) = true) : equalAll p q = true := by
  induction path with
  | nil => exact h
  | cons token rest ih =>
    rw [List.cons_append, List.cons_append, equalAll] at h
    exact ih (Bool.and_eq_true_iff.mp h).2

theorem Issue.alike_of_under {a b : Issue} {path : Path}
    (h : (a.under path).alike (b.under path) = true) : a.alike b = true := by
  obtain ⟨hk, hp⟩ := Bool.and_eq_true_iff.mp h
  exact Bool.and_eq_true_iff.mpr ⟨hk, Value.equalAll_of_append path hp⟩

/-- Let no mapping that is looked into have an entry under the null key. Then the structural pass
ends, and its issues are the violations of the form: each violation is reported by one issue, at the
path of the object at fault and of the token below it, and nothing else is. No two issues have a
kind and a path in common, and they come in the order of the objects, token by token as texts. -/
theorem structural_issues_exact [Visiting] (type : ShapeType) {node : Value}
    (hw : node.isWellFormed = true) (hn : ¬ (Form.ofShapeType type).NullKeyed node) (path : Path)
    (hpath : ∀ token ∈ path, ∃ key : Key, token = key.toValue) :
    ∃ (issues : List Issue) (found : List Violation),
      type.structuralIssuesAt path node = .ok issues ∧
      found.Nodup ∧ (∀ x, x ∈ found ↔ (Form.ofShapeType type).Violates node x) ∧
      List.Forall₂ (fun issue x => issue.kind = x.kind ∧
        issue.path = path ++ (x.object ++ x.token)) issues found ∧
      issues.Pairwise (fun a b => a.alike b = false) ∧
      found.Pairwise fun x y =>
        Path.tokensLe (x.object.map Value.text) (y.object.map Value.text) = true := by
  have regular := Form.isRegular_ofShapeType type
  have apart := (Form.ofShapeType type).apart regular hw
  obtain ⟨xs, hxs, hnodup, hmem⟩ := (Form.ofShapeType type).enumerates regular hn
  rw [Form.check_ofShapeType] at apart hxs
  -- The complaints come in another order; the violations they are about go along with them.
  have hperm := Complaint.ordered_perm (Check.ofShapeType type node)
  obtain ⟨found, hfound, hsame⟩ := List.perm_comp_forall₂ hperm hxs
  have alike : ((Complaint.ordered (Check.ofShapeType type node)).map Complaint.issue).Pairwise
      fun a b => a.alike b = false := by
    rw [List.pairwise_map]
    refine ((hperm.pairwise_iff Complaint.ClashOnlyIf.symm).mpr apart).imp fun hcd => ?_
    exact Bool.eq_false_iff.mpr fun h => hn (hcd (Complaint.clash_of_alike h)).1
  obtain ⟨issues, hissues⟩ := Shape.structuralIssuesAt_ends type node hpath
  have listed : issues = ((Complaint.ordered (Check.ofShapeType type node)).map
      Complaint.issue).map (Issue.under path) := by
    unfold ShapeType.structuralIssuesAt at hissues
    rw [ShapeType.structuralIssues_eq, Issue.firsts_of_apart alike] at hissues
    dsimp only at hissues
    split at hissues
    · exact (Except.ok.inj hissues).symm
    · cases hissues
  refine ⟨issues, found, hissues, hsame.nodup_iff.mpr hnodup,
    fun x => hsame.mem_iff.trans (hmem x), ?_, ?_, ?_⟩
  · rw [listed, List.forall₂_map_left_iff, List.forall₂_map_left_iff]
    refine hfound.imp fun c x h => ⟨h.kind, ?_⟩
    rw [← h.object, ← h.token]
    rfl
  · rw [listed, List.pairwise_map]
    refine alike.imp fun h => Bool.eq_false_iff.mpr fun h' => ?_
    rw [Issue.alike_of_under h'] at h
    cases h
  · have objects : (Complaint.ordered (Check.ofShapeType type node)).map (·.node) =
        found.map (·.object) := hfound.map_eq fun c x h => h.object
    have ordered : ((Complaint.ordered (Check.ofShapeType type node)).map (·.node)).Pairwise
        fun p q => Path.tokensLe (p.map Value.text) (q.map Value.text) = true :=
      List.pairwise_map.mpr (Path.sortBy_pairwise _ _)
    rw [objects] at ordered
    exact List.pairwise_map.mp ordered

open scoped Visiting in
/-- Members under a key that is no text and under two names, and a field too many. -/
theorem structural_issues_exact_of_four : ∃ (node : Value) (issues : List Issue)
    (found : List Violation), node = .map [(.str "type", .str "structure"),
      (.str "members", .map [(.int 7, .map []), (.str "b", .list []),
        (.str "a", .map [(.str "target", .int 5)])]), (.scalar .null, .null)] ∧
    node.isWellFormed = true ∧ ¬ (Form.ofShapeType .struct).NullKeyed node ∧
    ShapeType.structuralIssuesAt .struct [.str "p", .int 0] node = .ok issues ∧
    issues = [(Finding.fieldUnexpected .null).issueAt [.str "p", .int 0, .null],
      (Finding.fieldMissing "target").issueAt
        [.str "p", .int 0, .str "members", .int 7, .str "target"],
      (Finding.wrongType (.int 5) .string).issueAt
        [.str "p", .int 0, .str "members", .str "a", .str "target"],
      (Finding.wrongType (.list []) .object).issueAt
        [.str "p", .int 0, .str "members", .str "b"]] ∧
    found.Nodup ∧ (∀ x, x ∈ found ↔ (Form.ofShapeType .struct).Violates node x) ∧
    found.length = 4 := by
  generalize hnode : Value.map [(.str "type", .str "structure"),
      (.str "members", .map [(.int 7, .map []), (.str "b", .list []),
        (.str "a", .map [(.str "target", .int 5)])]), (.scalar .null, .null)] = node
  have hw : node.isWellFormed = true := by
    subst hnode
    decide
  have hn : ¬ (Form.ofShapeType .struct).NullKeyed node := by
    subst hnode
    rintro (_ | _ | _ | ⟨hf, hv, below⟩)
    rcases List.mem_cons.mp hf with rfl | hf
    · cases below
    rcases List.mem_pair.mp hf with rfl | rfl
    · cases hv
    · cases hv
      cases below with
      | here he hnull =>
        revert hnull
        rcases List.mem_cons.mp he with rfl | he
        · decide
        · rcases List.mem_pair.mp he with rfl | rfl <;> decide
      | inEntry he below => exact Form.not_nullKeyed_of_isFlat rfl below
  obtain ⟨issues, found, hi, hnodup, hmem, hreports, -, -⟩ :=
    structural_issues_exact .struct hw hn [.str "p", .int 0]
      (List.forall_mem_cons.mpr ⟨⟨.str "p", rfl⟩, List.forall_mem_singleton.mpr ⟨.int 0, rfl⟩⟩)
  have run : ShapeType.structuralIssuesAt .struct [.str "p", .int 0] node = .ok
      [(Finding.fieldUnexpected .null).issueAt [.str "p", .int 0, .null],
        (Finding.fieldMissing "target").issueAt
          [.str "p", .int 0, .str "members", .int 7, .str "target"],
        (Finding.wrongType (.int 5) .string).issueAt
          [.str "p", .int 0, .str "members", .str "a", .str "target"],
        (Finding.wrongType (.list []) .object).issueAt
          [.str "p", .int 0, .str "members", .str "b"]] := by
    subst hnode
    rfl
  obtain rfl := Except.ok.inj (hi.symm.trans run)
  exact ⟨node, _, found, rfl, hw, hn, hi, rfl, hnodup, hmem, hreports.length_eq.symm⟩

open scoped Visiting in
/-- The null key is left out of the path, so a member under it can be taken for another: here a
target that is no text and a member that is no object are reported as one. -/
theorem null_key_hides_violation : ∃ (node : Value) (x y : Violation),
    node = .map [(.str "type", .str "structure"), (.str "members", .map
      [(.scalar .null, .map [(.str "target", .int 5)]), (.str "target", .int 5)])] ∧
    node.isPlain = true ∧ node.isWellFormed = true ∧ x ≠ y ∧
    (Form.ofShapeType .struct).Violates node x ∧ (Form.ofShapeType .struct).Violates node y ∧
    x.object = [.str "members", .null, .str "target"] ∧
    ShapeType.structuralIssuesAt .struct [] node =
      .ok [(Finding.wrongType (.int 5) .object).issueAt [.str "members", .str "target"]] := by
  have members : ("members", Form.mapOf Form.member) ∈ [("type", Form.tag "structure"),
      ("mixins", .listOf .reference), ("members", .mapOf .member)] := by simp
  have below : Form.member.Violates (.map [(.str "target", .int 5)])
      (Violation.under 0 (.str "target") ⟨[], [], [], .invalidValueType⟩) :=
    .inField (f := ("target", .data .string)) (by simp) rfl (.wrongType rfl)
  have object : Form.member.Violates (.int 5) ⟨[], [], [], .invalidValueType⟩ := .noObject (by simp)
  refine ⟨_, _, _, rfl, by decide, by decide, ?_,
    .inField members rfl (.inEntry (n := 0) rfl below),
    .inField members rfl (.inEntry (n := 1) rfl object), rfl, rfl⟩
  exact fun h => absurd (congrArg (·.positions) h) (by decide)

end ServiceModel
