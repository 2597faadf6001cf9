import Mathlib.Data.List.Induction
import ServiceModel.Proofs.Value.Entries
import ServiceModel.Shape.MemberNames

/-!
# When member names are admitted

Names go into groups by their folded form, one after another. No group ever gets a second name
exactly if no folded form repeats. So there is no issue about the names of members if they are
identifiers that stay apart when folded, and meet what the policy asks for besides.
-/
namespace ServiceModel

theorem Rule.isIdentifier_of_isEnumMember {cs : List Char} (h : isEnumMember cs = true) :
    isIdentifier cs = true := by
  cases cs with
  | nil => cases h
  | cons c rest =>
    obtain ⟨hc, hr⟩ : c.isAlpha = true ∧ rest.all isWordChar = true := by
      simpa [isEnumMember] using h
    have hne : (c == '_') = false := by
      rw [beq_eq_false_iff_ne]
      rintro rfl
      cases hc
    rw [isIdentifier, List.takeWhile_cons, List.dropWhile_cons, hne]
    simp [Char.isAlphanum, hc, hr]

theorem eraseDups_concat {α : Type} [BEq α] [LawfulBEq α] (xs : List α) (x : α) :
    (xs ++ [x]).eraseDups = xs.eraseDups ++ if xs.contains x then [] else [x] := by
  rw [List.eraseDups_append]
  by_cases h : xs.contains x = true
  · rw [if_pos h, show [x].removeAll xs = [] by simpa [List.removeAll] using h, List.eraseDups_nil]
  · rw [if_neg h, show [x].removeAll xs = [x] by simpa [List.removeAll] using h]
    rfl

theorem length_eraseDups_le {α : Type} [BEq α] [LawfulBEq α] (xs : List α) :
    xs.eraseDups.length ≤ xs.length := by
  induction xs using List.reverseRecOn with
  | nil => exact Nat.le_refl _
  | append_singleton xs x ih =>
    rw [eraseDups_concat, List.length_append, List.length_append]
    split
    · exact Nat.le_add_right_of_le ih
    · exact Nat.add_le_add_right ih 1

theorem length_eraseDups_eq_iff {α : Type} [BEq α] [LawfulBEq α] (xs : List α) :
    xs.eraseDups.length = xs.length ↔ xs.Nodup := by
  induction xs using List.reverseRecOn with
  | nil => simp
  | append_singleton xs x ih =>
    have le := length_eraseDups_le xs
    rw [eraseDups_concat, List.length_append, List.length_append, List.length_singleton,
      List.nodup_append_comm, List.singleton_append, List.nodup_cons, ← ih]
    by_cases h : x ∈ xs
    · rw [if_pos (List.contains_iff_mem.mpr h), List.length_nil]
      exact ⟨fun hlen => by omega, fun hn => absurd h hn.1⟩
    · rw [if_neg (mt List.contains_iff_mem.mp h), List.length_singleton]
      exact ⟨fun hlen => ⟨h, by omega⟩, fun hn => by omega⟩

namespace MemberNames

/-- Every group has one name only. -/
def Apart (groups : List (List Char × List Value)) : Prop := ∀ group ∈ groups, group.2.length < 2

def forms (groups : List (List Char × List Value)) : List (List Char) := groups.map (·.1)

theorem apart_cons_iff {group : List Char × List Value} {rest : List (List Char × List Value)} :
    Apart (group :: rest) ↔ group.2.length < 2 ∧ Apart rest := List.forall_mem_cons

variable {groups : List (List Char × List Value)}

theorem ne_nil_of_mem_addToGroups (hne : ∀ group ∈ groups, group.2 ≠ []) (key : Value) :
    ∀ group ∈ addToGroups groups key, group.2 ≠ [] := by
  induction groups with
  | nil => simp [addToGroups]
  | cons group rest ih =>
    obtain ⟨form, keys⟩ := group
    obtain ⟨hk, hr⟩ := List.forall_mem_cons.mp hne
    unfold addToGroups
    split
    · exact List.forall_mem_cons.mpr ⟨by simp, hr⟩
    · exact List.forall_mem_cons.mpr ⟨hk, ih hr⟩

theorem mem_forms_addToGroups {key : Value} {form : List Char} :
    form ∈ forms (addToGroups groups key) ↔ form ∈ forms groups ∨ form = folded key := by
  induction groups with
  | nil => simp [addToGroups, forms]
  | cons group rest ih =>
    obtain ⟨other, keys⟩ := group
    unfold addToGroups
    split
    · rename_i h
      simp only [forms, List.map_cons, List.mem_cons, h]
      tauto
    · simp only [forms, List.map_cons, List.mem_cons] at ih ⊢
      rw [ih, or_assoc]

/-- A name that is added stays apart if its form has no group yet. -/
theorem apart_addToGroups_iff (hne : ∀ group ∈ groups, group.2 ≠ []) (key : Value) :
    Apart (addToGroups groups key) ↔ Apart groups ∧ folded key ∉ forms groups := by
  induction groups with
  | nil => simp [addToGroups, Apart, forms]
  | cons group rest ih =>
    obtain ⟨form, keys⟩ := group
    obtain ⟨hk, hr⟩ := List.forall_mem_cons.mp hne
    unfold addToGroups
    split
    · rename_i h
      have one : 0 < keys.length := List.length_pos_iff.mpr hk
      have two : ¬ keys.length + 1 < 2 := by omega
      simp [apart_cons_iff, two, forms, h]
    · rename_i h
      simp only [apart_cons_iff, ih hr, forms, List.map_cons, List.mem_cons, not_or, and_assoc]
      tauto

theorem apart_foldl_iff (keys : List Value) (groups : List (List Char × List Value))
    (hne : ∀ group ∈ groups, group.2 ≠ []) : Apart (keys.foldl addToGroups groups) ↔
      Apart groups ∧ (keys.map folded).Nodup ∧ ∀ key ∈ keys, folded key ∉ forms groups := by
  induction keys generalizing groups with
  | nil => simp
  | cons key rest ih =>
    rw [List.foldl_cons, ih _ (ne_nil_of_mem_addToGroups hne key), apart_addToGroups_iff hne,
      List.map_cons, List.nodup_cons, List.forall_mem_cons]
    simp only [mem_forms_addToGroups, not_or, List.mem_map, not_exists, not_and]
    constructor
    · rintro ⟨⟨ha, hk⟩, hn, hr⟩
      exact ⟨ha, ⟨fun other ho => (hr other ho).2, hn⟩, hk, fun other ho => (hr other ho).1⟩
    · rintro ⟨ha, ⟨hd, hn⟩, hk, hr⟩
      exact ⟨⟨ha, hk⟩, hn, fun other ho => ⟨hr other ho, hd other ho⟩⟩

theorem filter_groups_eq_nil_iff {keys : List Value} :
    ((MemberNames.groups keys).filter fun group => group.2.length ≥ 2) = [] ↔
      (keys.map folded).Nodup := by
  have h := apart_foldl_iff keys [] (by simp)
  simp only [Apart, List.not_mem_nil, false_implies, implies_true, forms, List.map_nil,
    not_false_eq_true, and_true, true_and] at h
  rw [← h]
  simp [MemberNames.groups, List.filter_eq_nil_iff]

/-- With as many forms as keys there is no group that would be passed over. -/
theorem collisions_eq (keys : List Value) : collisions keys =
    (MemberNames.groups keys).filter fun group => group.2.length ≥ 2 := by
  by_cases h : (keys.map folded).eraseDups.length = (keys.map folded).length
  · have distinct := (length_eraseDups_eq_iff _).mp h
    rw [collisions, if_neg (not_not_intro h), filter_groups_eq_nil_iff.mpr distinct]
  · rw [collisions, if_pos h]

theorem mem_groups_of_mem_collisions {keys : List Value} {group : List Char × List Value}
    (h : group ∈ collisions keys) : group ∈ MemberNames.groups keys := by
  rw [collisions_eq] at h
  exact (List.mem_filter.mp h).1

theorem collisionIssues_eq_nil_iff {keys : List Value} :
    collisionIssues keys = [] ↔ (keys.map folded).Nodup := by
  rw [collisionIssues, List.map_eq_nil_iff, collisions_eq, filter_groups_eq_nil_iff]

/-- The rules for the names of members under a policy. -/
structure Admits (policy : NamingPolicy) (names : List String) : Prop where
  identifiers : ∀ name ∈ names, Rule.isIdentifier name.toList = true
  enumNames : policy.enumNames = true → ∀ name ∈ names, Rule.isEnumMember name.toList = true
  apart : (names.map fun name => Text.lower name.toList).Nodup
  nonEmpty : policy.nonEmpty = true → names ≠ []

theorem Admits.distinct {policy : NamingPolicy} {names : List String} (h : Admits policy names) :
    Entries.distinct (names.map .str) = true :=
  Entries.distinct_texts_iff.mpr (List.Nodup.of_map _ h.apart)

theorem keyIssues_eq_nil_iff {policy : NamingPolicy} {key : Value} :
    keyIssues policy key = [] ↔ ∃ name, key = .str name ∧ Rule.isIdentifier name.toList = true ∧
      (policy.enumNames = true → Rule.isEnumMember name.toList = true) := by
  unfold keyIssues
  rcases key with (_ | _ | _ | _ | name) | _ | _ | _ | _ | _ <;>
    simp [isIdentifier, isEnumMemberName, Rule.accepts]
  split <;> simp_all

theorem issues_eq_nil_iff {policy : NamingPolicy} {keys : List Value} :
    issues policy keys = [] ↔ ∃ names : List String, keys = names.map .str ∧
      Admits policy names := by
  simp only [issues, List.append_eq_nil_iff, List.flatMap_eq_nil_iff, keyIssues_eq_nil_iff,
    collisionIssues_eq_nil_iff]
  have empty : emptinessIssues policy keys = [] ↔ (policy.nonEmpty = true → keys ≠ []) := by
    unfold emptinessIssues
    split <;> simp_all
  rw [empty]
  constructor
  · rintro ⟨⟨hempty, hkeys⟩, hapart⟩
    obtain ⟨names, hn⟩ := List.Forall₂.of_forall_exists hkeys
    obtain rfl := (hn.imp fun _ _ h => h.1).eq_map
    refine ⟨names, rfl, ?_, ?_, ?_, ?_⟩
    · intro name h
      obtain ⟨_, -, -, hi, -⟩ := hn.exists_of_mem_right h
      exact hi
    · intro he name h
      obtain ⟨_, -, -, -, hm⟩ := hn.exists_of_mem_right h
      exact hm he
    · simpa [Function.comp_def, folded, Value.text, Scalar.text] using hapart
    · simpa using hempty
  · rintro ⟨names, rfl, h⟩
    refine ⟨⟨?_, ?_⟩, ?_⟩
    · simpa using h.nonEmpty
    · intro key hk
      obtain ⟨name, hn, rfl⟩ := List.mem_map.mp hk
      exact ⟨name, rfl, h.identifiers name hn, fun he => h.enumNames he name hn⟩
    · simpa [Function.comp_def, folded, Value.text, Scalar.text] using h.apart

end MemberNames

end ServiceModel
