import Mathlib.Data.List.Induction
import ServiceModel.Proofs.Shape.Apart
import ServiceModel.Proofs.Shape.Collapse
import ServiceModel.Proofs.Value.Reordered

/-!
# Checks that do not see the order of entries

A check is steady if it has the same complaints, as to their kinds and paths, about a value and
about any reordering of it. So are all checks of the field table. The order of the complaints may
change with the order of the entries, and with it which of two complaints that clash comes first;
but those have the same kind and path, so what is left of them is the same in the end.
-/
namespace ServiceModel

namespace Issue

def marks (issues : List Issue) : List (Issue.Kind × Path) := issues.map mark

theorem marks_append (issues others : List Issue) :
    marks (issues ++ others) = marks issues ++ marks others := List.map_append

theorem marks_under (path : Path) (issues : List Issue) :
    marks (issues.map (under path)) =
      (marks issues).map fun mark => (mark.1, path ++ mark.2) := by
  unfold marks
  rw [List.map_map, List.map_map]
  rfl

theorem eq_nil_iff_of_marks {issues others : List Issue}
    (h : (marks issues).Perm (marks others)) : issues = [] ↔ others = [] := by
  have length := h.length_eq
  rw [marks, marks, List.length_map, List.length_map] at length
  rw [← List.length_eq_zero_iff, ← List.length_eq_zero_iff, length]

/-- Two issues are alike if their marks are. -/
def alikeMarks (a b : Issue.Kind × Path) : Bool := a.1 == b.1 && Value.equalAll a.2 b.2

def firstMarks : List (Issue.Kind × Path) → List (Issue.Kind × Path)
  | [] => []
  | mark :: rest => mark :: (firstMarks rest).filter fun other => !alikeMarks mark other

theorem marks_firsts (issues : List Issue) : marks (firsts issues) = firstMarks (marks issues) := by
  induction issues with
  | nil => rfl
  | cons issue rest ih =>
    have filtered : marks ((firsts rest).filter fun other => !issue.alike other) =
        (marks (firsts rest)).filter fun other => !alikeMarks issue.mark other := by
      rw [marks, marks, List.filter_map]
      rfl
    rw [ih] at filtered
    exact congrArg (issue.mark :: ·) filtered

/-- As long as alike marks are the same mark, it does not matter which of them comes first. -/
theorem firstMarks_perm {marks others : List (Issue.Kind × Path)} (h : marks.Perm others)
    (exact : ∀ a ∈ marks, ∀ b ∈ marks, alikeMarks a b = true → a = b) :
    (firstMarks marks).Perm (firstMarks others) := by
  induction h with
  | nil => exact .refl []
  | cons a _ ih =>
    have below := ih fun b hb c hc =>
      exact b (List.mem_cons_of_mem a hb) c (List.mem_cons_of_mem a hc)
    exact (below.filter _).cons a
  | swap a b rest =>
    have hab := exact a (by simp) b (by simp)
    have hba := exact b (by simp) a (by simp)
    by_cases same : a = b
    · rw [same]
    · have apart : alikeMarks a b = false := Bool.eq_false_iff.mpr fun h => same (hab h)
      have apart' : alikeMarks b a = false := Bool.eq_false_iff.mpr fun h => same (hba h).symm
      simp only [firstMarks, List.filter_cons, apart, apart', Bool.not_false, if_true,
        List.filter_filter, Bool.and_comm]
      exact .swap _ _ _
  | trans h _ ih ih' =>
    exact (ih exact).trans
      (ih' fun a ha b hb => exact a (h.mem_iff.mpr ha) b (h.mem_iff.mpr hb))

end Issue

namespace Complaint

def marks (complaints : List Complaint) : List (Issue.Kind × Path) :=
  complaints.map fun c => c.issue.mark

theorem marks_append (cs ds : List Complaint) : marks (cs ++ ds) = marks cs ++ marks ds :=
  List.map_append

theorem marks_flatMap {α : Type} (items : List α) (f : α → List Complaint) :
    marks (items.flatMap f) = items.flatMap fun item => marks (f item) := List.map_flatMap

theorem marks_under (token : Value) (cs : List Complaint) :
    marks (cs.map (under token)) = (marks cs).map fun mark => (mark.1, token :: mark.2) := by
  unfold marks
  rw [List.map_map, List.map_map]
  rfl

theorem marks_underKey (key : Key) (cs : List Complaint) : marks (cs.map (underKey key)) =
    if key = .scalar .null then marks cs
      else (marks cs).map fun mark => (mark.1, key.toValue :: mark.2) := by
  by_cases h : key = .scalar .null
  · have same : underKey key = id := funext fun c => if_pos h
    rw [if_pos h, same, List.map_id]
  · have under : underKey key = under key.toValue := funext fun c => if_neg h
    rw [if_neg h, under, marks_under]

/-- Complaints that clash only where their paths are one have one mark if their issues are alike. -/
theorem mark_eq_of_alike {P : Prop} {cs : List Complaint} (h : cs.Pairwise (ClashOnlyIf P)) :
    ∀ c ∈ cs, ∀ d ∈ cs, c.issue.alike d.issue = true → c.issue.mark = d.issue.mark := by
  have symm : Std.Symm fun c d : Complaint => Clash c d → c.issue.mark = d.issue.mark :=
    ⟨fun _ _ h hclash => (h hclash.symm).symm⟩
  have marked : cs.Pairwise fun c d => Clash c d → c.issue.mark = d.issue.mark :=
    h.imp fun hcd hclash => Prod.ext hclash.1 (hcd hclash).2
  intro c hc d hd halike
  exact marked.forall_of_forall (fun _ _ _ => rfl) hc hd (clash_of_alike halike)

end Complaint

namespace Check
open Complaint JsonSchema Value

def Steady (check : Check) : Prop :=
  ∀ {v w : Value}, v.Shuffled w → (marks (check v)).Perm (marks (check w))

theorem steady_of_congr {check : Check}
    (h : ∀ {v w : Value}, v.Reordered w → marks (check v) = marks (check w)) : Steady check :=
  fun hs => .of_eq (h hs.reordered)

theorem steady_ofType (type : DataType) : Steady (ofType type) := by
  refine steady_of_congr fun h => ?_
  have mark : ∀ v, marks (ofType type v) =
      if hasType type v then [] else [(.invalidValueType, [])] := by
    intro v
    unfold ofType
    split <;> rfl
  have same : hasType type _ = hasType type _ := h.congr (f := hasType type)
    (fun _ _ => by cases type <;> exact ⟨rfl, rfl⟩) (fun _ _ => by cases type <;> exact ⟨rfl, rfl⟩)
    fun _ _ => by cases type <;> rfl
  rw [mark, mark, same]

theorem steady_tag (expected : String) : Steady (tag expected) := by
  refine steady_of_congr fun h => ?_
  unfold tag
  rw [h.str?_eq]
  split <;> rfl

/-- A check of objects is steady if it is so on them. -/
theorem steady_of_object {check : Check}
    (other : ∀ {v : Value}, (∀ es, v ≠ .map es) → check v = ofType .object v)
    (object : ∀ {es fs : Entries Value}, Entries.distinct (es.map (·.1)) = true →
      Entries.Rearranged Shuffled es fs →
        (marks (check (.map es))).Perm (marks (check (.map fs)))) : Steady check := by
  intro v w h
  by_cases hv : ∃ es, v = .map es
  · obtain ⟨es, rfl⟩ := hv
    obtain ⟨fs, rfl, hd, hef⟩ := shuffled_map_iff.mp h
    exact object hd hef
  · have hw : ∀ fs, w ≠ .map fs := by
      rintro fs rfl
      cases h.reordered
      exact hv ⟨_, rfl⟩
    rw [other fun es he => hv ⟨es, he⟩, other hw]
    exact steady_ofType .object h

theorem steady_textKeyed : Steady textKeyed := by
  refine steady_of_object textKeyed_of_noMap fun _ h => ?_
  have keys := (h.keys.map Key.toValue).flatMap_right fun key =>
    marks (if hasType .string key then [] else [Complaint.about (.wrongType key .string)])
  rw [List.map_map, List.map_map] at keys
  unfold textKeyed
  rw [marks_flatMap, marks_flatMap]
  exact keys

theorem steady_field {es fs : Entries Value} (hd : Entries.distinct (es.map (·.1)) = true)
    (h : Entries.Rearranged Shuffled es fs) (name : String) {check : Check} (hc : Steady check) :
    (marks (field es name check)).Perm (marks (field fs name check)) := by
  unfold field
  cases hv : es.field? name with
  | none =>
    rw [h.field?_none hd hv]
  | some v =>
    obtain ⟨w, hw, hs⟩ := h.field?_of_left hd hv
    rw [hw]
    dsimp only
    rw [marks_under, marks_under]
    exact (hc hs).map _

theorem missing_eq {es fs : Entries Value} (hd : Entries.distinct (es.map (·.1)) = true)
    (h : Entries.Rearranged Shuffled es fs) (required : List String) :
    missing required es = missing required fs := by
  have same : ∀ name, (es.field? name).isNone = (fs.field? name).isNone := by
    intro name
    cases hv : es.field? name with
    | none => rw [h.field?_none hd hv]
    | some v =>
      obtain ⟨w, hw, -⟩ := h.field?_of_left hd hv
      rw [hw]
      rfl
  unfold missing
  rw [funext same]

theorem marks_unexpected_perm {es fs : Entries Value} (h : Entries.Rearranged Shuffled es fs)
    (known : List String) : (marks (unexpected known es)).Perm (marks (unexpected known fs)) := by
  have keys : ∀ es : Entries Value, marks (unexpected known es) =
      ((es.map (·.1)).filter fun key => !known.any fun name => key.same (.str name)).map
        fun key => (.unexpectedField, [key.toValue]) := by
    intro es
    rw [unexpected, marks, List.map_map, List.filter_map, List.map_map]
    rfl
  rw [keys, keys]
  exact (h.keys.filter _).map _

theorem steady_record {fields : List (String × Check)} (required : List String)
    (hc : ∀ f ∈ fields, Steady f.2) : Steady (record fields required) := by
  refine steady_of_object record_of_noObject fun {es fs} hd h => ?_
  have held : (marks (fields.flatMap fun f => field es f.1 f.2)).Perm
      (marks (fields.flatMap fun f => field fs f.1 f.2)) := by
    rw [marks_flatMap, marks_flatMap]
    exact .flatMap_left fields fun f hf => steady_field hd h f.1 (hc f hf)
  unfold record
  rw [marks_append, marks_append, marks_append, marks_append, missing_eq hd h]
  exact (held.append_right _).append (marks_unexpected_perm h _)

theorem steady_arrayOf {check : Check} (hc : Steady check) : Steady (arrayOf check) := by
  intro v w h
  cases h.reordered with
  | list hxy =>
    obtain ⟨ys, hys, hs⟩ := shuffled_list_iff.mp h
    cases hys
    unfold arrayOf
    rw [marks_flatMap, marks_flatMap]
    refine (hs.zipIdx 0).rearranged.perm_flatMap fun x y hxy => ?_
    rw [marks_under, marks_under, hxy.2]
    exact (hc hxy.1).map _
  | _ => exact steady_ofType .array h

theorem steady_mapOf [Visiting] {check : Check} (hc : Steady check) : Steady (mapOf check) := by
  refine steady_of_object mapOf_of_noMap fun {es fs} _ h => ?_
  have visits := (h.perm_left (Visiting.perm es)).perm_right (Visiting.perm fs).symm
  unfold mapOf
  rw [marks_flatMap, marks_flatMap]
  refine visits.perm_flatMap fun e f hef => ?_
  rw [marks_underKey, marks_underKey, hef.1]
  split
  · exact hc hef.2
  · exact (hc hef.2).map _

end Check

theorem Form.steady [Visiting] (form : Form) : Check.Steady form.check := by
  induction form using Form.induction with
  | data type => exact Check.steady_ofType type
  | tag expected => exact Check.steady_tag expected
  | record fields required ih =>
    refine Check.steady_record required ?_
    rw [checks_eq_map]
    exact List.forall_mem_map.mpr ih
  | listOf item ih => exact Check.steady_arrayOf ih
  | mapOf value ih => exact Check.steady_mapOf ih

namespace ShapeType
open Complaint
variable [Visiting]

theorem marks_structuralIssues_perm (type : ShapeType) {v w : Value} (h : v.Shuffled w) :
    (Issue.marks (type.structuralIssues v)).Perm (Issue.marks (type.structuralIssues w)) := by
  have issues : ∀ v, Issue.marks ((ordered (Check.ofShapeType type v)).map issue) =
      marks (ordered (Check.ofShapeType type v)) := fun v => List.map_map
  have steady := (Form.ofShapeType type).steady h
  have apart := (Form.ofShapeType type).apart (Form.isRegular_ofShapeType type) h.single.wellFormed
  rw [Form.check_ofShapeType] at steady apart
  have hv := (ordered_perm (Check.ofShapeType type v))
  have hw := (ordered_perm (Check.ofShapeType type w))
  rw [structuralIssues_eq, structuralIssues_eq, Issue.marks_firsts, Issue.marks_firsts, issues,
    issues]
  refine Issue.firstMarks_perm ((hv.map _).trans (steady.trans (hw.map _).symm)) ?_
  intro a ha b hb halike
  obtain ⟨c, hc, rfl⟩ := List.mem_map.mp ha
  obtain ⟨d, hd, rfl⟩ := List.mem_map.mp hb
  exact mark_eq_of_alike apart c (hv.mem_iff.mp hc) d (hv.mem_iff.mp hd) halike

end ShapeType

/-! The names of members. -/

namespace MemberNames
variable {groups : List (List Char × List Value)} {keys others : List Value}

theorem forms_addToGroups (groups : List (List Char × List Value)) (key : Value) :
    forms (addToGroups groups key) =
      if folded key ∈ forms groups then forms groups else forms groups ++ [folded key] := by
  induction groups with
  | nil => rfl
  | cons group rest ih =>
    obtain ⟨form, keys⟩ := group
    unfold addToGroups
    by_cases h : form = folded key
    · have mem : folded key ∈ forms ((form, keys) :: rest) := List.mem_cons.mpr (.inl h.symm)
      rw [if_pos h, if_pos mem]
      rfl
    · have mem : folded key ∈ forms ((form, keys) :: rest) ↔ folded key ∈ forms rest :=
        List.mem_cons.trans (or_iff_right (Ne.symm h))
      have here : forms ((form, keys) :: addToGroups rest key) =
        form :: forms (addToGroups rest key) := rfl
      rw [if_neg h, here, ih]
      simp only [mem]
      split <;> rfl

theorem mem_addToGroups (hn : (forms groups).Nodup) {key : Value}
    {group : List Char × List Value} (h : group ∈ addToGroups groups key) :
    (group ∈ groups ∧ group.1 ≠ folded key) ∨
      (∃ before, (folded key, before) ∈ groups ∧ group = (folded key, before ++ [key])) ∨
        (folded key ∉ forms groups ∧ group = (folded key, [key])) := by
  induction groups with
  | nil => exact .inr (.inr ⟨by simp [forms], List.mem_singleton.mp h⟩)
  | cons first rest ih =>
    obtain ⟨form, keys⟩ := first
    obtain ⟨hform, hrest⟩ := List.nodup_cons.mp hn
    unfold addToGroups at h
    split at h
    · rename_i hkey
      rcases List.mem_cons.mp h with rfl | hm
      · exact .inr (.inl ⟨keys, by simp [hkey], by rw [hkey]⟩)
      · refine .inl ⟨List.mem_cons_of_mem _ hm, fun hsame => hform ?_⟩
        rw [hkey, ← hsame]
        exact List.mem_map.mpr ⟨group, hm, rfl⟩
    · rename_i hkey
      rcases List.mem_cons.mp h with rfl | hm
      · exact .inl ⟨List.mem_cons_self, hkey⟩
      · rcases ih hrest hm with ⟨hrest, hne⟩ | ⟨before, hbefore, rfl⟩ | ⟨habsent, rfl⟩
        · exact .inl ⟨List.mem_cons_of_mem _ hrest, hne⟩
        · exact .inr (.inl ⟨before, List.mem_cons_of_mem _ hbefore, rfl⟩)
        · exact .inr (.inr ⟨fun hmem => habsent ((List.mem_cons.mp hmem).resolve_left
            (Ne.symm hkey)), rfl⟩)

/-- Each folded form of a key has one group, which is as large as there are keys of the form. -/
structure Grouped (groups : List (List Char × List Value)) (keys : List Value) : Prop where
  nodup : (forms groups).Nodup
  mem_iff : ∀ form, form ∈ forms groups ↔ form ∈ keys.map folded
  size : ∀ group ∈ groups, group.2.length = (keys.map folded).count group.1

theorem Grouped.add (h : Grouped groups keys) (key : Value) :
    Grouped (addToGroups groups key) (keys ++ [key]) := by
  refine ⟨?_, fun form => ?_, fun group hg => ?_⟩
  · rw [forms_addToGroups]
    split
    · exact h.nodup
    · rename_i hnew
      exact List.Nodup.append h.nodup (List.nodup_singleton _) (by simpa using hnew)
  · rw [mem_forms_addToGroups, h.mem_iff, List.map_append, List.mem_append, List.map_singleton,
      List.mem_singleton]
  · rw [List.map_append, List.count_append, List.map_singleton]
    rcases mem_addToGroups h.nodup hg with ⟨hm, hne⟩ | ⟨before, hm, rfl⟩ | ⟨habsent, rfl⟩
    · rw [h.size group hm, List.count_singleton, beq_eq_false_iff_ne.mpr hne.symm]
      rfl
    · simpa using h.size _ hm
    · rw [h.mem_iff] at habsent
      simp [List.count_eq_zero.mpr habsent]

theorem grouped (keys : List Value) : Grouped (MemberNames.groups keys) keys := by
  induction keys using List.reverseRecOn with
  | nil => exact ⟨.nil, by simp [MemberNames.groups, forms], by simp [MemberNames.groups]⟩
  | append_singleton keys key ih =>
    have last : MemberNames.groups (keys ++ [key]) = addToGroups (MemberNames.groups keys) key :=
      List.foldl_concat _ _ _ _
    exact last ▸ ih.add key

/-- Keys in another order have groups of the same forms and sizes. -/
theorem sizes_perm (h : keys.Perm others) :
    ((MemberNames.groups keys).map fun group => (group.1, group.2.length)).Perm
      ((MemberNames.groups others).map fun group => (group.1, group.2.length)) := by
  have sizes : ∀ keys : List Value,
      (MemberNames.groups keys).map (fun group => (group.1, group.2.length)) =
        (forms (MemberNames.groups keys)).map fun form => (form, (keys.map folded).count form) := by
    intro keys
    rw [forms, List.map_map]
    exact List.map_congr_left fun group hg => Prod.ext rfl ((grouped keys).size group hg)
  have folds := h.map folded
  have counts : (fun form => (form, (keys.map folded).count form)) =
      fun form => (form, (others.map folded).count form) :=
    funext fun form => Prod.ext rfl (folds.count_eq form)
  rw [sizes, sizes, counts]
  refine List.Perm.map _ ((List.perm_ext_iff_of_nodup (grouped keys).nodup
    (grouped others).nodup).mpr fun form => ?_)
  rw [(grouped keys).mem_iff, (grouped others).mem_iff, folds.mem_iff]

theorem marks_issues_perm (policy : NamingPolicy) (h : keys.Perm others) :
    (Issue.marks (issues policy keys)).Perm (Issue.marks (issues policy others)) := by
  have empty : emptinessIssues policy keys = emptinessIssues policy others := by
    have same : keys.isEmpty = others.isEmpty := by
      rw [Bool.eq_iff_iff, List.isEmpty_iff_length_eq_zero, List.isEmpty_iff_length_eq_zero,
        h.length_eq]
    rw [emptinessIssues, emptinessIssues, same]
  have collisions : ∀ keys : List Value, Issue.marks (collisionIssues keys) =
      (((MemberNames.groups keys).map fun group => (group.1, group.2.length)).filter
        fun size => size.2 ≥ 2).map fun _ => (.duplicateMember, []) := by
    intro keys
    rw [collisionIssues, collisions_eq, Issue.marks, List.map_map, List.filter_map, List.map_map]
    rfl
  unfold issues
  rw [Issue.marks_append, Issue.marks_append, Issue.marks_append, Issue.marks_append, empty,
    collisions, collisions]
  exact (((h.flatMap_right _).map _).append_left _).append (((sizes_perm h).filter _).map _)

end MemberNames

end ServiceModel
