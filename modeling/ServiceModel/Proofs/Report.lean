import ServiceModel.Proofs.Document.Endings
import ServiceModel.Proofs.Location
import ServiceModel.Proofs.Value.Scalars

/-!
# The lines of a report

A report gives each issue a line of its own, but some messages show a text of the document as it is,
and each newline of such a text breaks the line. Nothing else does: names of kinds and of rules,
numbers and locations are on one line, and so are trees, in which texts are quoted.
-/
namespace ServiceModel

namespace Path
open Text

theorem newline_not_mem_part (cs : List Char) : '\n' ∉ part cs := by
  unfold part
  split
  · rename_i h
    exact fun hn => absurd (all_of_isBare h _ hn) (by decide)
  · exact JsonString.newline_not_mem_encode cs

theorem newlines_index? {token : Value} {n : String} (h : index? token = some n) :
    newlines n = 0 := by
  unfold index? at h
  split at h
  · obtain rfl := Option.some.inj h
    exact newlines_toString_int _
  · obtain rfl := Option.some.inj h
    exact Scalar.newlines_literal rfl
  · cases h

theorem newline_not_mem_extend {written : List Char} (h : '\n' ∉ written) (token : Value) :
    '\n' ∉ extend written token := by
  have name := newline_not_mem_part token.text.toList
  unfold extend
  split
  · rename_i n hn
    have digits := newlines_eq_zero_iff.mp (newlines_index? hn)
    simp [h, digits]
  · split
    · exact name
    · simp [h, name]

theorem newlines_location (path : Path) : newlines path.location = 0 := by
  refine newlines_ofList ?_
  have run : ∀ (path : Path) (written : List Char), '\n' ∉ written →
      '\n' ∉ path.foldl extend written := by
    intro path
    induction path with
    | nil => exact fun _ h => h
    | cons token rest ih => exact fun written h => ih _ (newline_not_mem_extend h token)
  exact run path [] List.not_mem_nil

end Path

namespace Finding
open Text

/-- The texts that stand in the message as they are. -/
def verbatim : Finding → List String
  | .notAShape _ | .wrongType _ _ | .wrongTag _ _ | .keyNotText _ | .documentNotMapping _ => []
  | finding => finding.cited.map Value.text

theorem verbatim_subset (finding : Finding) :
    finding.verbatim ⊆ finding.cited.map Value.text := by
  cases finding <;> simp [verbatim]

theorem newlines_verbatim {finding : Finding}
    (h : finding.Cites (·.everyScalar Scalar.onLine = true)) :
    ∀ text ∈ finding.verbatim, newlines text = 0 := by
  intro text ht
  obtain ⟨value, hv, rfl⟩ := List.mem_map.mp (verbatim_subset finding ht)
  exact Value.newlines_text (h value hv)

@[simp] theorem newlines_ruleName (rule : Rule) : newlines rule.name = 0 := by cases rule <;> decide

@[simp] theorem newlines_inQuotes (text : String) : newlines (inQuotes text) = newlines text := by
  have quote : newlines "'" = 0 := by decide
  rw [inQuotes, newlines_append, newlines_append, quote, Nat.zero_add, Nat.add_zero]

@[simp] theorem newlines_of_fixed (text : String) (h : '\n' ∉ text.toList) : newlines text = 0 :=
  newlines_eq_zero_iff.mpr h

/-- The newlines of a message are those of the texts that it shows as they are. -/
theorem newlines_message {finding : Finding}
    (h : finding.Cites (·.everyScalar Scalar.numberOnLine = true)) :
    newlines finding.message = (finding.verbatim.map newlines).sum := by
  -- Each message is joined from its parts here, so that their newlines can be added up.
  cases finding with
  | badToken refusal =>
    change newlines (inQuotes refusal.value.text ++ " is not a valid " ++ refusal.rule.name) = _
    simp (disch := decide) [verbatim, cited]
  | badShapeId refusal =>
    change newlines ("Shape id " ++ inQuotes refusal.value.text ++ " is not a valid " ++
      refusal.rule.name) = _
    simp (disch := decide) [verbatim, cited]
  | badMemberName key =>
    change newlines ("Member name " ++ inQuotes key.text ++ " is not a valid " ++
      Rule.identifier.name) = _
    simp (disch := decide) [verbatim, cited]
  | badEnumMemberName key =>
    change newlines ("Enum member name " ++ inQuotes key.text ++ " must start with a letter") = _
    simp (disch := decide) [verbatim, cited]
  | collidingMembers keys =>
    change newlines ("Member names collide case-insensitively: " ++
      ", ".intercalate (keys.map fun key => inQuotes key.text)) = _
    rw [newlines_append, newlines_intercalate (by decide)]
    simp (disch := decide) [verbatim, cited, Function.comp_def]
  | noMembers => decide
  | notAShape node =>
    exact newlines_of_fixed "Shape definition must be an object with a 'type' field" (by decide)
  | typeMissing => decide
  | typeUnknown type =>
    change newlines ("Unknown shape type " ++ inQuotes type.text) = _
    simp (disch := decide) [verbatim, cited]
  | fieldMissing name =>
    change newlines ("Missing required field " ++ inQuotes name) = _
    simp (disch := decide) [verbatim, cited, Value.text, Scalar.text]
  | fieldUnexpected key =>
    change newlines ("Unexpected field " ++ inQuotes key.text) = _
    simp (disch := decide) [verbatim, cited]
  | wrongType node expected =>
    have literal := Value.newlines_literal (h node (List.mem_singleton_self node))
    have name : newlines expected.name = 0 := by cases expected <;> decide
    change newlines (node.literal ++ " is not of type " ++ inQuotes expected.name) = _
    simp (disch := decide) [verbatim, literal, name]
  | wrongTag node expected =>
    have literal : newlines (Value.str expected).literal = 0 := Scalar.newlines_literal rfl
    change newlines ((Value.str expected).literal ++ " was expected") = _
    simp (disch := decide) [verbatim, literal]
  | keyNotText key =>
    have literal := Value.newlines_literal (h key (List.mem_singleton_self key))
    change newlines ("Mapping key " ++ key.literal ++ " is not a string") = _
    simp (disch := decide) [verbatim, literal]
  | documentNotMapping node =>
    exact newlines_of_fixed "Model document must be a mapping/object" (by decide)
  | shapeIdRepeated key count =>
    change newlines ("Shape id " ++ inQuotes key.text ++ " is defined " ++ toString count ++
      " times") = _
    simp (disch := decide) [verbatim, cited]

end Finding

namespace Issue
open Text

theorem newlines_kindName (kind : Kind) : newlines kind.name = 0 := by cases kind <;> decide

theorem line_eq (issue : Issue) : ∃ place, newlines place = 0 ∧
    issue.line = "  - " ++ (issue.kind.name ++ ": " ++ issue.message ++ " (at " ++ place ++ ")") := by
  refine ⟨if issue.location.isEmpty then "<document>" else issue.location, ?_, rfl⟩
  split
  · decide
  · exact Path.newlines_location issue.path

theorem newlines_line (issue : Issue) : newlines issue.line = newlines issue.message := by
  obtain ⟨place, hp, h⟩ := line_eq issue
  rw [h]
  simp (disch := decide) [hp, newlines_kindName]

/-- The first line of an issue names its kind, and each newline of its message begins one more. -/
theorem lines_line (issue : Issue) : ∃ first rest,
    lines issue.line = ("  - " ++ issue.kind.name ++ ": " ++ first) :: rest ∧
      rest.length = newlines issue.message := by
  obtain ⟨place, hp, h⟩ := line_eq issue
  have front : newlines ("  - " ++ issue.kind.name ++ ": ") = 0 := by
    simp (disch := decide) [newlines_kindName]
  obtain ⟨first, rest, hl, hr⟩ := exists_lines_append front
    (issue.message ++ " (at " ++ place ++ ")")
  refine ⟨first, rest, ?_, ?_⟩
  · rw [h, ← hl]
    simp only [String.append_assoc]
  · rw [hr]
    simp (disch := decide) [hp]

theorem lines_report {issues : List Issue} (h : issues ≠ []) :
    lines (report issues) = issues.flatMap fun issue => lines issue.line := by
  rw [report, lines_intercalate (by simpa using h), List.flatMap_map]

theorem lines_report_eq_iff {issues : List Issue} (h : issues ≠ []) :
    lines (report issues) = issues.map line ↔ ∀ issue ∈ issues, newlines issue.message = 0 := by
  rw [report, lines_intercalate_eq_iff (by simpa using h), List.forall_mem_map]
  simp only [newlines_line]

theorem lines_rejection {issues : List Issue} (h : issues ≠ []) (heading : String) :
    lines (rejection issues heading) = lines (heading ++ ":") ++ lines (report issues) := by
  have start : ":\n" = ":" ++ "\n" := rfl
  rw [rejection, if_neg (by simpa using h), start, ← String.append_assoc, lines_append_newline]

/-- The issues, one by one, are those of findings. -/
theorem exists_findings {P : Value → Prop} {issues : List Issue}
    (h : ∀ issue ∈ issues, issue.Cites P) : ∃ findings : List (Finding × Path),
      issues = findings.map (fun f => f.1.issueAt f.2) ∧ ∀ f ∈ findings, f.1.Cites P := by
  induction issues with
  | nil => exact ⟨[], rfl, fun _ hf => nomatch hf⟩
  | cons issue rest ih =>
    obtain ⟨⟨finding, path, rfl, hf⟩, hr⟩ := List.forall_mem_cons.mp h
    obtain ⟨findings, rfl, hfs⟩ := ih hr
    exact ⟨(finding, path) :: findings, rfl, List.forall_mem_cons.mpr ⟨hf, hfs⟩⟩

theorem newlines_of_cites {issue : Issue} (h : issue.Cites (·.everyScalar Scalar.onLine = true)) :
    newlines issue.message = 0 := by
  obtain ⟨finding, path, rfl, hf⟩ := h
  have numbers : finding.Cites (·.everyScalar Scalar.numberOnLine = true) := fun value hv =>
    Value.everyScalar_mono Scalar.numberOnLine_of_onLine (hf value hv)
  change newlines finding.message = 0
  rw [Finding.newlines_message numbers, List.sum_eq_zero_iff_forall_eq_nat]
  exact List.forall_mem_map.mpr (Finding.newlines_verbatim hf)

end Issue

theorem parseModel_of_rejected [Visiting] {settings : Settings} {document : Value}
    {issues : List Issue} (run : (validate settings document).outcome = .ok ⟨none, issues⟩) :
    parseModel settings document = .ok (.error issues) := by
  rw [parseModel, run]
  rfl

open Text in
/-- The report of a rejected document, under all settings; no number of the document is written with
a newline. Each issue has a first line, which begins with a dash and the name of its kind, and one
line more for each newline in a text that its message shows as it is. The lines of the report are
those of the issues in order; so it has exactly one line for each issue if and only if no such text
holds a newline, and it has if no text of the document does. The text of the rejection is the report
under one line. -/
theorem report_lines [Visiting] {document : Value}
    (hn : document.everyScalar Scalar.numberOnLine = true)
    {arrival : Schedule} {settings : Settings} {issues : List Issue}
    (run : (validateWith arrival settings document).outcome = .ok ⟨none, issues⟩) :
    (∃ findings : List (Finding × Path), issues = findings.map (fun f => f.1.issueAt f.2) ∧
      (∀ f ∈ findings, ∃ first rest,
        lines (f.1.issueAt f.2).line = ("  - " ++ f.1.kind.name ++ ": " ++ first) :: rest ∧
        rest.length = (f.1.verbatim.map newlines).sum) ∧
      (lines (Issue.report issues) = issues.map Issue.line ↔
        ∀ f ∈ findings, ∀ text ∈ f.1.verbatim, newlines text = 0)) ∧
    lines (Issue.report issues) = (issues.flatMap fun issue => lines issue.line) ∧
    (document.everyScalar Scalar.onLine = true →
      lines (Issue.report issues) = issues.map Issue.line) ∧
    lines (Issue.rejection issues Issue.rejectedModel) =
      "Model validation failed:" :: lines (Issue.report issues) ∧
    (arrival = .inOrder → parseModel settings document = .ok (.error issues)) := by
  have hne := Validation.ne_nil_of_rejected run
  have cites : ∀ issue ∈ issues, issue.Cites (·.everyScalar Scalar.numberOnLine = true) :=
    Validation.issues_cite Scalar.inherited_numberOnLine.everyScalar hn run
  obtain ⟨findings, hf, hcites⟩ := Issue.exists_findings cites
  refine ⟨⟨findings, hf, fun f hm => ?_, ?_⟩, Issue.lines_report hne, fun ho => ?_, ?_, ?_⟩
  · obtain ⟨first, rest, hl, hr⟩ := Issue.lines_line (f.1.issueAt f.2)
    exact ⟨first, rest, hl, hr.trans (Finding.newlines_message (hcites f hm))⟩
  · rw [Issue.lines_report_eq_iff hne, hf, List.forall_mem_map]
    refine forall₂_congr fun f hm => ?_
    change newlines f.1.message = 0 ↔ _
    rw [Finding.newlines_message (hcites f hm), List.sum_eq_zero_iff_forall_eq_nat,
      List.forall_mem_map]
  · have onLine := Validation.issues_cite Scalar.inherited_onLine.everyScalar ho run
    exact (Issue.lines_report_eq_iff hne).mpr fun issue hi =>
      Issue.newlines_of_cites (onLine issue hi)
  · rw [Issue.lines_rejection hne]
    rfl
  · rintro rfl
    exact parseModel_of_rejected run

open scoped Visiting in
open Text in
/-- A list with a text of two lines, which is quoted, and a field whose name has two lines. -/
theorem report_lines_of_two : ∃ (document : Value) (issues : List Issue),
    document = .map [(.str "smithy", .list [.str "a\nb"]), (.str "c\nd", .null)] ∧
    document.everyScalar Scalar.numberOnLine = true ∧
    (validate Settings.standard document).outcome = .ok ⟨none, issues⟩ ∧
    parseModel Settings.standard document = .ok (.error issues) ∧
    lines (Issue.rejection issues Issue.rejectedModel) =
      ["Model validation failed:",
        "  - InvalidValueTypeError: ['a\\nb'] is not of type 'string' (at smithy)",
        "  - UnexpectedFieldError: Unexpected field 'c", "d' (at \"c\\nd\")"] := by
  have run : (validate Settings.standard (.map [(.str "smithy", .list [.str "a\nb"]),
      (.str "c\nd", .null)])).outcome = .ok ⟨none,
        [(Finding.wrongType (.list [.str "a\nb"]) .string).issueAt [.str "smithy"],
          (Finding.fieldUnexpected (.str "c\nd")).issueAt [.str "c\nd"]]⟩ := rfl
  obtain ⟨-, hlines, -, rejected, raised⟩ := report_lines (by decide) run
  refine ⟨_, _, rfl, by decide, run, raised rfl, ?_⟩
  rw [rejected, hlines]
  decide +kernel

open scoped Visiting in
/-- A name that goes on like a line of the report: one issue, two lines. -/
theorem name_forges_line : ∃ (document : Value) (issue : Issue),
    document = .map [(.str "smithy", .str "2.0"), (.str "x\n  - LexicalError: forged", .int 1)] ∧
    (validate Settings.standard document).outcome = .ok ⟨none, [issue]⟩ ∧
    issue.kind = .unexpectedField ∧
    Text.lines (Issue.report [issue]) =
      ["  - UnexpectedFieldError: Unexpected field 'x",
        "  - LexicalError: forged' (at \"x\\n  - LexicalError: forged\")"] := by
  refine ⟨_, _, rfl, rfl, rfl, ?_⟩
  decide +kernel

end ServiceModel
