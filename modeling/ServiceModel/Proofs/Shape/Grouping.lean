import ServiceModel.Proofs.Identifier.Language
import ServiceModel.Proofs.Shape.MemberMaps
import ServiceModel.Proofs.Shape.Steady

/-!
# Reports about the names of members

The keys of one folded form are one group, in the order of the keys, and the groups come in the
order in which their forms first occur. So there is one collision for each form that two keys or
more have in common, and each key is reported at most once besides.
-/
namespace ServiceModel

namespace MemberNames
variable {groups : List (List Char × List Value)} {keys : List Value} {key : Value}

/-! Groups by their forms. -/

theorem addToGroups_of_absent (h : folded key ∉ forms groups) :
    addToGroups groups key = groups ++ [(folded key, [key])] := by
  induction groups with
  | nil => rfl
  | cons group rest ih =>
    obtain ⟨form, keys⟩ := group
    obtain ⟨hne, hrest⟩ := not_or.mp (mt List.mem_cons.mpr h)
    rw [addToGroups, if_neg (Ne.symm hne), ih hrest, List.cons_append]

theorem addToGroups_of_mem (hn : (forms groups).Nodup) (h : folded key ∈ forms groups) :
    addToGroups groups key = groups.map fun group =>
      if group.1 = folded key then (group.1, group.2 ++ [key]) else group := by
  induction groups with
  | nil => cases h
  | cons group rest ih =>
    obtain ⟨form, keys⟩ := group
    obtain ⟨hform, hrest⟩ := List.nodup_cons.mp hn
    rw [addToGroups, List.map_cons]
    by_cases hkey : form = folded key
    · have others : ∀ group ∈ rest, group.1 ≠ folded key := by
        intro group hg hsame
        apply hform
        rw [hkey, ← hsame]
        exact List.mem_map.mpr ⟨group, hg, rfl⟩
      have same : rest.map (fun group => if group.1 = folded key then (group.1, group.2 ++ [key])
          else group) = rest := by
        conv_rhs => rw [← List.map_id rest]
        exact List.map_congr_left fun group hg => if_neg (others group hg)
      rw [if_pos hkey, if_pos hkey, same]
    · have hmem : folded key ∈ forms rest := (List.mem_cons.mp h).resolve_left (Ne.symm hkey)
      rw [if_neg hkey, if_neg hkey, ih hrest hmem]

theorem groups_concat (keys : List Value) (key : Value) :
    MemberNames.groups (keys ++ [key]) = addToGroups (MemberNames.groups keys) key :=
  List.foldl_concat _ _ _ _

theorem groups_eq (keys : List Value) : MemberNames.groups keys =
    (keys.map folded).eraseDups.map fun form => (form, keys.filter (folded · = form)) := by
  induction keys using List.reverseRecOn with
  | nil => rfl
  | append_singleton keys key ih =>
    have hforms : forms (MemberNames.groups keys) = (keys.map folded).eraseDups := by
      rw [ih, forms, List.map_map]
      exact List.map_id _
    have grow : ∀ form, (keys ++ [key]).filter (folded · = form) =
        keys.filter (folded · = form) ++ if folded key = form then [key] else [] := by
      intro form
      rw [List.filter_append, List.filter_singleton]
      by_cases h : folded key = form <;> simp [h]
    simp only [grow]
    rw [groups_concat, List.map_append, List.map_singleton, eraseDups_concat]
    by_cases h : folded key ∈ keys.map folded
    · have mem : folded key ∈ forms (MemberNames.groups keys) := by
        rw [hforms]
        exact List.mem_eraseDups.mpr h
      rw [addToGroups_of_mem (grouped keys).nodup mem, ih, List.map_map,
        if_pos (List.contains_iff_mem.mpr h), List.append_nil]
      refine List.map_congr_left fun form _ => ?_
      by_cases hf : form = folded key
      · simp [hf]
      · simp [hf, Ne.symm hf]
    · have absent : folded key ∉ forms (MemberNames.groups keys) := by
        rw [hforms]
        exact fun hm => h (List.mem_eraseDups.mp hm)
      have first : keys.filter (folded · = folded key) = [] := by
        apply List.filter_eq_nil_iff.mpr
        intro other ho hsame
        exact h (of_decide_eq_true hsame ▸ List.mem_map_of_mem ho)
      rw [addToGroups_of_absent absent, ih, if_neg (mt List.contains_iff_mem.mp h),
        List.map_append, List.map_singleton, if_pos rfl, first, List.nil_append]
      congr 1
      refine List.map_congr_left fun form hform => ?_
      have hne : folded key ≠ form := fun he => h (he ▸ List.mem_eraseDups.mp hform)
      rw [if_neg hne, List.append_nil]

/-- The keys by their folded forms, in the order in which the forms first occur. -/
def classes (keys : List Value) : List (List Value) :=
  (keys.map folded).eraseDups.map fun form => keys.filter (folded · = form)

theorem collisionIssues_eq (keys : List Value) : collisionIssues keys =
    ((classes keys).filter (2 ≤ ·.length)).map fun colliding =>
      (Finding.collidingMembers colliding).issueAt [] := by
  rw [collisionIssues, collisions_eq, groups_eq, classes, List.filter_map, List.filter_map,
    List.map_map, List.map_map]
  rfl

/-! What is reported of each key. -/

/-- A key is no identifier, or it is one and has no letter where it needs one, or it is fine. -/
inductive KeyReport (policy : NamingPolicy) (path : Path) (key : Value) : List Issue → Prop
  | noIdentifier (h : ¬ key.Generated .identifier) :
    KeyReport policy path key [(Finding.badMemberName key).issueAt (path ++ [.str key.text])]
  | noLetter {s : String} (asked : policy.enumNames = true) (hk : key = .str s)
    (h : Grammar.identifier s) (hn : ¬ Grammar.initialLetter s) :
    KeyReport policy path key [(Finding.badEnumMemberName key).issueAt (path ++ [key])]
  | fine (h : key.Generated .identifier)
    (he : policy.enumNames = true → key.Generated .enumMember) : KeyReport policy path key []

theorem keyReport (policy : NamingPolicy) (path : Path) (key : Value) :
    KeyReport policy path key ((keyIssues policy key).map (.under path)) := by
  unfold keyIssues
  by_cases h : key.Generated .identifier
  · rw [isIdentifier_iff_generated.mpr h, if_neg (by decide)]
    by_cases he : key.Generated .enumMember
    · rw [isEnumMemberName_iff_generated.mpr he, Bool.not_true, Bool.and_false, if_neg (by decide)]
      exact .fine h fun _ => he
    · rw [Bool.eq_false_iff.mpr (mt isEnumMemberName_iff_generated.mp he), Bool.not_false,
        Bool.and_true]
      split
      · rename_i asked
        obtain ⟨s, rfl, hs⟩ := h
        exact .noLetter asked rfl hs fun hl => he ⟨s, rfl, hs, hl⟩
      · rename_i unasked
        exact .fine h fun asked => absurd asked unasked
  · rw [Bool.eq_false_iff.mpr (mt isIdentifier_iff_generated.mp h), if_pos (by decide)]
    exact .noIdentifier h

theorem keyReport_nil_iff {policy : NamingPolicy} {path : Path} {key : Value} :
    KeyReport policy path key [] ↔ key.Generated .identifier ∧
      (policy.enumNames = true → key.Generated .enumMember) := by
  constructor
  · rintro (_ | _ | ⟨h, he⟩)
    exact ⟨h, he⟩
  · rintro ⟨h, he⟩
    exact .fine h he

theorem keyIssues_eq_nil_iff_generated {policy : NamingPolicy} {key : Value} :
    keyIssues policy key = [] ↔ key.Generated .identifier ∧
      (policy.enumNames = true → key.Generated .enumMember) := by
  constructor
  · intro h
    have report := keyReport policy [] key
    rw [h] at report
    exact keyReport_nil_iff.mp report
  · rintro ⟨⟨s, rfl, hs⟩, he⟩
    refine keyIssues_eq_nil_iff.mpr ⟨s, rfl, Rule.generates_iff.mp hs, fun asked => ?_⟩
    exact Rule.generates_iff.mp (Value.generated_str_iff.mp (he asked))

end MemberNames

end ServiceModel
