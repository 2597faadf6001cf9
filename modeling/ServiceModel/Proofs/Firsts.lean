import ServiceModel.Issue.Basic
import ServiceModel.Proofs.Value.Entries

/-!
# The first issue of each kind at each path

Issues that are not alike are all kept, and issues that are repeated are kept once, where they come
first.
-/
namespace ServiceModel

theorem Value.equal_str_iff {value : Value} {name : String} :
    value.equal (.str name) = true ↔ value = .str name := by
  cases value with
  | scalar s =>
    change (Key.scalar s).same (.str name) = true ↔ _
    simp [Key.same_str_iff]
  | _ => simp [equal]

theorem Value.str_equal_iff {value : Value} {name : String} :
    (Value.str name).equal value = true ↔ value = .str name := by
  cases value with
  | scalar s =>
    change (Key.str name).same (.scalar s) = true ↔ _
    simp [Key.str_same_iff]
  | _ => simp [equal]

namespace Issue

theorem firsts_eq_nil_iff {issues : List Issue} : firsts issues = [] ↔ issues = [] := by
  cases issues <;> simp [firsts]

theorem firsts_subset (issues : List Issue) : firsts issues ⊆ issues := by
  induction issues with
  | nil => exact List.Subset.refl _
  | cons issue rest ih =>
    exact List.cons_subset_cons issue (List.Subset.trans (List.filter_subset_self _) ih)

theorem firsts_of_apart {issues : List Issue}
    (h : issues.Pairwise fun a b => a.alike b = false) : firsts issues = issues := by
  induction h with
  | nil => rfl
  | @cons issue rest hi _ ih =>
    rw [firsts, ih]
    exact congrArg (issue :: ·) (List.filter_eq_self.mpr fun other ho => by simp [hi other ho])

/-- The first ones of those issues that are kept are kept, if no issue is kept beside one that is
alike and is not. -/
theorem filter_firsts {keep : Issue → Bool} (h : ∀ a b, alike a b = true → keep a = keep b)
    (issues : List Issue) : (firsts issues).filter keep = firsts (issues.filter keep) := by
  induction issues with
  | nil => rfl
  | cons issue rest ih =>
    rw [firsts, List.filter_cons, List.filter_cons]
    cases hk : keep issue with
    | true =>
      rw [if_pos rfl, if_pos rfl, firsts, ← ih, List.filter_filter, List.filter_filter]
      simp only [Bool.and_comm]
    | false =>
      rw [if_neg Bool.false_ne_true, if_neg Bool.false_ne_true, ← ih, List.filter_filter]
      refine List.filter_congr fun other _ => ?_
      cases ha : issue.alike other with
      | false => simp
      | true => simp [← h issue other ha, hk]

/-! An issue about a field is alike to those only that have its kind and its path. -/

section
variable {name : String}

theorem equalAll_field_iff {path : Path} :
    Value.equalAll [.str name] path = true ↔ path = [.str name] := by
  cases path with
  | nil => simp [Value.equalAll]
  | cons token rest => cases rest <;> simp [Value.equalAll, Value.str_equal_iff]

theorem field_equalAll_iff {path : Path} :
    Value.equalAll path [.str name] = true ↔ path = [.str name] := by
  cases path with
  | nil => simp [Value.equalAll]
  | cons token rest => cases rest <;> simp [Value.equalAll, Value.equal_str_iff]

theorem alike_iff_of_field {issue other : Issue} (h : issue.path = [.str name]) :
    issue.alike other = true ↔ issue.kind = other.kind ∧ other.path = [.str name] := by
  rw [alike, Bool.and_eq_true, beq_iff_eq, h, equalAll_field_iff]

theorem path_eq_field_iff_of_alike {a b : Issue} (h : a.alike b = true) :
    a.path = [.str name] ↔ b.path = [.str name] := by
  have same : Value.equalAll a.path b.path = true := (Bool.and_eq_true_iff.mp h).2
  constructor
  · intro ha
    rw [ha] at same
    exact equalAll_field_iff.mp same
  · intro hb
    rw [hb] at same
    exact field_equalAll_iff.mp same

theorem alike_congr_of_field {issue : Issue} (h : issue.path = [.str name]) {a b : Issue}
    (hab : a.alike b = true) : issue.alike a = issue.alike b := by
  have kinds : a.kind = b.kind := eq_of_beq (Bool.and_eq_true_iff.mp hab).1
  rw [Bool.eq_iff_iff, alike_iff_of_field h, alike_iff_of_field h, kinds,
    path_eq_field_iff_of_alike hab]

/-- Of an issue about a field, what comes after the first one is left out. -/
theorem firsts_append_cons_of_mem {issue : Issue} (h : issue.path = [.str name])
    {before : List Issue} (hm : issue ∈ before) (after : List Issue) :
    firsts (before ++ issue :: after) = firsts (before ++ after) := by
  induction before with
  | nil => cases hm
  | cons first rest ih =>
    rw [List.cons_append, List.cons_append, firsts, firsts]
    congr 1
    rcases List.mem_cons.mp hm with rfl | hm
    · have congruent (a b : Issue) (hab : a.alike b = true) :
          (!issue.alike a) = !issue.alike b := by rw [alike_congr_of_field h hab]
      have self : issue.alike issue = true := (alike_iff_of_field h).mpr ⟨rfl, h⟩
      rw [filter_firsts congruent, filter_firsts congruent, List.filter_append,
        List.filter_append, List.filter_cons_of_neg (by simp [self])]
    · rw [ih hm]

end

/-- Issues about fields that have all been reported before are left out. -/
theorem firsts_append_of_subset {before repeated : List Issue} (h : repeated ⊆ before)
    (fields : ∀ issue ∈ repeated, ∃ name, issue.path = [.str name]) (after : List Issue) :
    firsts (before ++ (repeated ++ after)) = firsts (before ++ after) := by
  induction repeated with
  | nil => rfl
  | cons issue rest ih =>
    obtain ⟨hm, hrest⟩ := List.cons_subset.mp h
    obtain ⟨⟨name, hpath⟩, others⟩ := List.forall_mem_cons.mp fields
    rw [List.cons_append, firsts_append_cons_of_mem hpath hm, ih hrest others]

/-- Issues about fields that are all reported several times over are kept once. -/
theorem firsts_append_repeated {α : Type} (times : List α) {issues : List Issue}
    (h : times = [] → issues = []) (fields : ∀ issue ∈ issues, ∃ name, issue.path = [.str name])
    (before after : List Issue) :
    firsts (before ++ (times.flatMap (fun _ => issues) ++ after)) =
      firsts (before ++ (issues ++ after)) := by
  cases times with
  | nil => rw [h rfl, List.flatMap_nil]
  | cons first rest =>
    have again : rest.flatMap (fun _ => issues) ⊆ before ++ issues := by
      intro issue hi
      obtain ⟨_, -, hi⟩ := List.mem_flatMap.mp hi
      exact List.mem_append_right before hi
    have all : ∀ issue ∈ rest.flatMap (fun _ => issues), ∃ name, issue.path = [.str name] := by
      intro issue hi
      obtain ⟨_, -, hi⟩ := List.mem_flatMap.mp hi
      exact fields issue hi
    have kept := firsts_append_of_subset again all after
    simpa only [List.flatMap_cons, List.append_assoc] using kept

end Issue

end ServiceModel
