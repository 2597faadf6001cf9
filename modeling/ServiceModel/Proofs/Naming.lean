import ServiceModel.Proofs.Lexical
import ServiceModel.Proofs.Shape.Grouping

/-!
# What is reported about the names of members

For any entries, whatever their keys are, the check of the names gives an issue if there has to be a
member and there is none, then at most one for each key, then one for each form that keys have in
common. A definition whose members are decoded from these entries is reported with exactly the same
issues about names.
-/
namespace ServiceModel

/-- The policy for the members of each type that has members by name. -/
inductive PolicyOf : ShapeType → NamingPolicy → Prop
  | struct : PolicyOf .struct { nonEmpty := false, enumNames := false }
  | union : PolicyOf .union { nonEmpty := true, enumNames := false }
  | enum : PolicyOf .enum { nonEmpty := true, enumNames := true }
  | intEnum : PolicyOf .intEnum { nonEmpty := true, enumNames := true }

theorem PolicyOf.exists_fields {type : ShapeType} {policy : NamingPolicy}
    (h : PolicyOf type policy) :
    ∃ required, type.fields = [⟨"members", .memberMap policy, required⟩] := by
  cases h <;> exact ⟨_, rfl⟩

/-- The issue is one about the names of members. -/
def Issue.IsAboutNames (issue : Issue) : Prop :=
  issue.kind = .duplicateMember ∨ issue.kind = .emptyMemberSet ∨
    issue.kind = .invalidEnumMemberName ∨
    issue.kind = .lexical ∧ ∃ key, issue.values = [key, .str Rule.identifier.name]

namespace MemberNames
variable {policy : NamingPolicy} {members : Value} {entries : List (Value × Value)} {path : Path}

theorem check_eq (h : members.itemsOrParts >>= Value.splitAll = .ok entries) :
    check policy members path = .ok ((issues policy (entries.map (·.1))).map (.under path)) := by
  obtain ⟨items, hi, hs⟩ := Fault.bind_eq_ok_iff.mp h
  unfold check
  rw [hi, Fault.ok_bind, hs]
  rfl

/-- The issues of the check: none that is missing, then those of each key, then the collisions. -/
theorem exists_keyReports (policy : NamingPolicy) (path : Path) (keys : List Value) :
    ∃ reports, List.Forall₂ (KeyReport policy path) keys reports ∧
      (issues policy keys).map (.under path) =
        (if policy.nonEmpty = true ∧ keys = [] then [Finding.noMembers.issueAt path] else []) ++
          reports.flatten ++ ((classes keys).filter (2 ≤ ·.length)).map fun colliding =>
            (Finding.collidingMembers colliding).issueAt path := by
  refine ⟨keys.map fun key => (keyIssues policy key).map (.under path), ?_, ?_⟩
  · apply List.forall₂_map_right_iff.mpr
    exact List.forall₂_same.mpr fun key _ => keyReport policy path key
  · have empty : (emptinessIssues policy keys).map (Issue.under path) =
        if policy.nonEmpty = true ∧ keys = [] then [Finding.noMembers.issueAt path] else [] := by
      unfold emptinessIssues
      simp only [Bool.and_eq_true, List.isEmpty_iff]
      split
      · rw [List.map_singleton, Finding.under_issueAt, List.append_nil]
      · rfl
    rw [issues, List.map_append, List.map_append, empty, List.map_flatMap, List.flatMap_def,
      collisionIssues_eq, List.map_map]
    congr 1
    refine List.map_congr_left fun colliding _ => ?_
    exact (Finding.under_issueAt _ path []).trans (by rw [List.append_nil])

theorem issues_eq_nil_iff_generated {keys : List Value} : issues policy keys = [] ↔
    (∀ key ∈ keys, key.Generated .identifier ∧
      (policy.enumNames = true → key.Generated .enumMember)) ∧
    (keys.map folded).Nodup ∧ (policy.nonEmpty = true → keys ≠ []) := by
  have empty : emptinessIssues policy keys = [] ↔ (policy.nonEmpty = true → keys ≠ []) := by
    unfold emptinessIssues
    split <;> simp_all
  rw [issues, List.append_eq_nil_iff, List.append_eq_nil_iff, List.flatMap_eq_nil_iff,
    collisionIssues_eq_nil_iff, empty]
  simp only [keyIssues_eq_nil_iff_generated]
  constructor
  · rintro ⟨⟨hempty, hkeys⟩, hapart⟩
    exact ⟨hkeys, hapart, hempty⟩
  · rintro ⟨hkeys, hapart, hempty⟩
    exact ⟨⟨hempty, hkeys⟩, hapart⟩

end MemberNames

/-! A definition whose members come from entries. -/

namespace Value

theorem splitAll_entries (entries : List (Value × Value)) :
    splitAll (entries.map fun e => entry e.1 e.2) = .ok entries := by
  rw [splitAll, Fault.mapM_eq_ok_iff, List.forall₂_map_left_iff]
  exact List.forall₂_same.mpr fun e _ => split_entry e.1 e.2

theorem ofEntries_entry (es : Entries Value) :
    ofEntries (es.map fun e => entry e.1.toValue e.2) =
      .ok (if Entries.distinct (es.map (·.1)) then .map es
        else .pairs (es.map fun e => entry e.1.toValue e.2)) := by
  have split := Reading.splitAll_eq_ok_iff.mpr (keyedEntries_entry es)
  have keys : (es.map fun e => (e.1.toValue, e.2)).mapM (fun p => p.1.key) =
      .ok (es.map (·.1)) := by
    rw [Fault.mapM_eq_ok_iff, List.forall₂_map_left_iff, List.forall₂_map_right_iff]
    exact List.forall₂_same.mpr fun e _ => key_toValue e.1
  have entries : (es.map (·.1)).zip ((es.map fun e => (e.1.toValue, e.2)).map (·.2)) = es := by
    rw [List.map_map, List.zip_map']
    exact List.map_id es
  unfold ofEntries
  rw [split, Fault.ok_bind, keys, Fault.ok_bind, entries]
  split <;> rfl

theorem ofEntries_cases {es : Entries Value} {members : Value}
    (h : ofEntries (es.map fun e => entry e.1.toValue e.2) = .ok members) :
    members = .map es ∨ members = .pairs (es.map fun e => entry e.1.toValue e.2) := by
  rw [ofEntries_entry, Except.ok.injEq] at h
  split at h
  · exact .inl h.symm
  · exact .inr h.symm

theorem splits_ofEntries {es : Entries Value} {members : Value}
    (h : ofEntries (es.map fun e => entry e.1.toValue e.2) = .ok members) :
    members.hasEntries = true ∧
      members.itemsOrParts >>= splitAll = .ok (es.map fun e => (e.1.toValue, e.2)) ∧
      members.named = es.map fun e => (e.1.toValue, e.2) := by
  have split := Reading.splitAll_eq_ok_iff.mpr (keyedEntries_entry es)
  obtain rfl | rfl := ofEntries_cases h
  · exact ⟨rfl, split, rfl⟩
  · exact ⟨rfl, split, named_eq rfl split⟩

end Value

/-! No other reader reports anything about the names of members. -/

namespace Site

theorem not_isAboutNames_of_reports {sites : List Site}
    (h : ∀ site ∈ sites, site.rule = .absoluteId) :
    ∀ issue ∈ reports sites, ¬ issue.IsAboutNames := by
  intro issue hi
  obtain ⟨site, hsite, rfl⟩ := List.mem_map.mp hi
  have hrule := h site (List.mem_filter.mp hsite).1
  rintro (hk | hk | hk | ⟨-, key, hv⟩)
  · cases hk
  · cases hk
  · cases hk
  · simp [issue, hrule, Rule.name] at hv

theorem rule_of_mem_target {es : Entries Value} : ∀ site ∈ target es, site.rule = .absoluteId := by
  intro site hs
  unfold target inField at hs
  split at hs
  · obtain ⟨place, hp, rfl⟩ := List.mem_map.mp hs
    unfold text at hp
    split at hp
    · rw [List.mem_singleton.mp hp]
      rfl
    · cases hp
  · cases hs

theorem rule_of_mem_member {value : Value} :
    ∀ site ∈ member value, site.rule = .absoluteId := by
  refine List.forall_mem_append.mpr ⟨rule_of_mem_target, fun site hs => ?_⟩
  unfold traitKeys inField at hs
  split at hs
  · obtain ⟨place, hp, rfl⟩ := List.mem_map.mp hs
    obtain ⟨e, -, rfl⟩ := List.mem_map.mp hp
    rfl
  · cases hs

theorem rule_of_mem_mixins {es : Entries Value} :
    ∀ site ∈ inField es "mixins" references, site.rule = .absoluteId := by
  intro site hs
  unfold inField at hs
  split at hs
  · obtain ⟨place, hp, rfl⟩ := List.mem_map.mp hs
    obtain ⟨item, -, hp⟩ := List.mem_flatMap.mp hp
    obtain ⟨below, hb, rfl⟩ := List.mem_map.mp hp
    exact rule_of_mem_target below hb
  · cases hs

end Site

theorem Issue.not_isAboutNames_of_structural {issue : Issue}
    (h : issue.kind ∈ Kind.structural) : ¬ issue.IsAboutNames := by
  rintro (hk | hk | hk | ⟨hk, -⟩) <;> rw [hk] at h <;> revert h <;> decide

/-- The names are reported in one piece, after the mixins and before what is under the names. -/
theorem Draft.read_of_policy {type : ShapeType} {policy : NamingPolicy} {fields : Entries Value}
    {members : Value} (hpolicy : PolicyOf type policy) (hf : fields.field? "members" = some members)
    (hentries : members.hasEntries = true) (h : (Draft.read type (.map fields)).Ends) :
    ∃ before after, (Draft.read type (.map fields)).trace = before ++
        (MemberNames.issues policy (members.named.map (·.1))).map (.under [.str "members"]) ++
          after ∧
      ∀ issue ∈ before ++ after, ¬ issue.IsAboutNames := by
  obtain ⟨required, hfields⟩ := hpolicy.exists_fields
  obtain ⟨hmixins, each, run⟩ := Draft.read_trace h
  have members_ends : (Reading.memberMap policy members).Ends := by
    have hread := each ⟨"members", .memberMap policy, required⟩ (by simp [hfields])
    exact Traced.ends_map_iff.mp (content_ends_of_readField hf hread)
  let below := members.named.flatMap fun e =>
    (Site.member e.2).map (Site.under [.str e.1.text])
  refine ⟨(readMixins type (.map fields)).trace,
    (Site.reports below).map (.under [.str "members"]), ?_, List.forall_mem_append.mpr ⟨?_, ?_⟩⟩
  · rw [run, hfields, List.flatMap_singleton, readField_trace hf, List.append_assoc,
      ← List.map_append, ← Reading.memberMap_trace members_ends hentries]
    have content : (Reading.content (.memberMap policy) members).trace =
        (Reading.memberMap policy members).trace := Traced.trace_map _ _
    rw [← content]
  · rw [readMixins_trace hmixins]
    apply Site.not_isAboutNames_of_reports
    split
    · exact Site.rule_of_mem_mixins
    · simp
  · refine List.forall_mem_map.mpr (Site.not_isAboutNames_of_reports fun site hs => ?_)
    obtain ⟨e, -, hs⟩ := List.mem_flatMap.mp hs
    obtain ⟨place, hp, rfl⟩ := List.mem_map.mp hs
    exact Site.rule_of_mem_member place hp

/-- The check of names gives exactly these issues, and a definition is reported with the same. -/
theorem member_names_exact [Visiting] (policy : NamingPolicy) :
    (∀ entries : List (Value × Value),
      (Value.list (entries.map fun e => .entry e.1 e.2)).itemsOrParts >>= Value.splitAll =
        .ok entries) ∧
    (∀ (members : Value) (entries : List (Value × Value)) (path : Path),
      members.itemsOrParts >>= Value.splitAll = .ok entries →
      ∃ reports, List.Forall₂ (MemberNames.KeyReport policy path) (entries.map (·.1)) reports ∧
        MemberNames.check policy members path = .ok (
          (if policy.nonEmpty = true ∧ entries = [] then [Finding.noMembers.issueAt path]
            else []) ++
          reports.flatten ++
          ((MemberNames.classes (entries.map (·.1))).filter (2 ≤ ·.length)).map fun colliding =>
            (Finding.collidingMembers colliding).issueAt path)) ∧
    (∀ (members : Value) (entries : List (Value × Value)) (path : Path),
      members.itemsOrParts >>= Value.splitAll = .ok entries →
      (MemberNames.check policy members path = .ok [] ↔
        (∀ e ∈ entries, e.1.Generated .identifier ∧
          (policy.enumNames = true → e.1.Generated .enumMember)) ∧
        (entries.map fun e => MemberNames.folded e.1).Nodup ∧
        (policy.nonEmpty = true → entries ≠ []))) ∧
    ∀ (type : ShapeType) (node members : Value) (fields entries : Entries Value) (path : Path),
      PolicyOf type policy → node.Maps fields → fields.field? "type" = some (.str type.tag) →
      fields.field? "members" = some members →
      Value.ofEntries (entries.map fun e => Value.entry e.1.toValue e.2) = .ok members →
      node.isWellFormed = true → Readable.definition node →
      (∀ token ∈ path, ∃ key : Key, token = key.toValue) →
      ∃ before names after shape,
        Shape.parse node path = ⟨before ++ names ++ after, .ok shape⟩ ∧
        MemberNames.check policy members (path ++ [.str "members"]) = .ok names ∧
        ∀ issue ∈ before ++ after, ¬ issue.IsAboutNames := by
  refine ⟨?sequence, ?exact, ?empty, ?parsed⟩
  case sequence => exact Value.splitAll_entries
  case exact =>
    intro members entries path h
    obtain ⟨reports, hr, hi⟩ := MemberNames.exists_keyReports policy path (entries.map (·.1))
    refine ⟨reports, hr, ?_⟩
    rw [MemberNames.check_eq h, hi]
    simp only [List.map_eq_nil_iff]
  case empty =>
    intro members entries path h
    rw [MemberNames.check_eq h, Except.ok.injEq, List.map_eq_nil_iff,
      MemberNames.issues_eq_nil_iff_generated, List.forall_mem_map, List.map_map, ne_eq,
      List.map_eq_nil_iff]
    rfl
  case parsed =>
    intro type node members fields entries path hpolicy hm ht hf hmembers hw hr hpath
    obtain ⟨plain, shape, structural, -, hi, hread, run⟩ :=
      Shape.parse_of_readable hw hr hm ht hpath
    obtain ⟨hentries, hsplit, hnamed⟩ := Value.splits_ofEntries hmembers
    obtain ⟨before, after, htrace, hquiet⟩ := Draft.read_of_policy hpolicy hf hentries hread
    have here (issues : List Issue) : (issues.map (Issue.under [.str "members"])).map
        (Issue.under path) = issues.map (Issue.under (path ++ [.str "members"])) := by
      rw [List.map_map]
      exact List.map_congr_left fun issue _ => Issue.under_under _ _ issue
    rw [hnamed] at htrace
    refine ⟨structural ++ before.map (.under path), _, after.map (.under path), shape, ?_,
      MemberNames.check_eq hsplit, ?_⟩
    · rw [run, htrace, List.map_append, List.map_append, here]
      simp only [List.append_assoc]
    · obtain ⟨hbefore, hafter⟩ := List.forall_mem_append.mp hquiet
      have apart := fun issue hmem =>
        Issue.not_isAboutNames_of_structural (type.structural_of_mem hi issue hmem)
      refine List.forall_mem_append.mpr ⟨List.forall_mem_append.mpr ⟨apart, ?_⟩, ?_⟩
      · exact List.forall_mem_map.mpr hbefore
      · exact List.forall_mem_map.mpr hafter

open scoped Visiting in
/-- Members of an enumeration: one without a letter, one that is no text, and one name three times
in two spellings. -/
theorem member_names_exact_of_five :
    ∃ (entries : Entries Value) (members node : Value) (reports : List (List Issue))
      (before names after : List Issue) (shape : Option Shape),
      entries = [(.str "A", .null), (.str "_b", .null), (.int 7, .null), (.str "a", .null),
        (.str "A", .null)] ∧
      members = .pairs (entries.map fun e => .entry e.1.toValue e.2) ∧
      node = .map [(.str "type", .str "enum"), (.str "members", members)] ∧
      List.Forall₂ (MemberNames.KeyReport { nonEmpty := true, enumNames := true } [.str "members"])
        (entries.map (·.1.toValue)) reports ∧
      names = reports.flatten ++
        [(Finding.collidingMembers [.str "A", .str "a", .str "A"]).issueAt [.str "members"]] ∧
      names ≠ [] ∧
      Shape.parse node [] = ⟨before ++ names ++ after, .ok shape⟩ ∧
      ∀ issue ∈ before ++ after, ¬ issue.IsAboutNames := by
  obtain ⟨-, exact, empty, parsed⟩ := member_names_exact { nonEmpty := true, enumNames := true }
  generalize hentries : [(Key.str "A", Value.null), (.str "_b", .null), (.int 7, .null),
    (.str "a", .null), (.str "A", .null)] = entries
  generalize hmembers : Value.pairs (entries.map fun e => .entry e.1.toValue e.2) = members
  have decoded : Value.ofEntries (entries.map fun e => .entry e.1.toValue e.2) = .ok members := by
    subst hentries hmembers
    rfl
  have split : members.itemsOrParts >>= Value.splitAll =
      .ok (entries.map fun e => (e.1.toValue, e.2)) := by
    subst hentries hmembers
    rfl
  generalize hnode : Value.map [(.str "type", .str "enum"), (.str "members", members)] = node
  have hw : node.isWellFormed = true := by
    subst hentries hmembers hnode
    decide
  have hpath : ∀ token ∈ ([] : Path), ∃ key : Key, token = key.toValue := by simp
  have readable : Readable.definition node := by
    refine (Shape.parse_ends_iff hw hpath).mp ⟨none, ?_⟩
    subst hentries hmembers hnode
    rfl
  obtain ⟨reports, hreports, hcheck⟩ := exact members _ [.str "members"] split
  obtain ⟨before, names, after, shape, hrun, hnames, quiet⟩ := parsed .enum node members
    [(.str "type", .str "enum"), (.str "members", members)] entries [] .enum (hnode ▸ .map _) rfl
    rfl decoded hw readable hpath
  have same := Except.ok.inj (hnames.symm.trans hcheck)
  refine ⟨entries, members, node, reports, before, names, after, shape, rfl, hmembers.symm,
    hnode.symm, ?_, ?_, ?_, hrun, quiet⟩
  · rwa [List.map_map] at hreports
  · rw [same]
    subst hentries
    rfl
  · rintro rfl
    obtain ⟨-, apart, -⟩ := (empty members _ [.str "members"] split).mp hnames
    subst hentries
    revert apart
    decide

end ServiceModel
