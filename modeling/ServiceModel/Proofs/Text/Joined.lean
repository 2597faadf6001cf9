import Mathlib.Data.List.TakeWhile
import ServiceModel.Text.Cut

/-!
# Cutting what was joined

Parts that do not hold the separator are found again when their join is cut, at the first, at the
last or at every separator.
-/
namespace ServiceModel.Text
variable {sep : Char} {cs ds : List Char}

theorem pieces_eq_splitOn (sep : Char) (cs : List Char) : pieces sep cs = cs.splitOn sep := by
  induction cs with
  | nil => rfl
  | cons c rest ih =>
    rw [List.splitOn_eq_splitOnP] at ih ⊢
    rw [List.splitOnP_cons_eq_if_modifyHead, ← ih]
    by_cases h : c = sep
    · simp [pieces, h]
    · cases hp : pieces sep rest with
      | nil => exact absurd hp (pieces_ne_nil sep rest)
      | cons piece more => simp [pieces, h, hp]

theorem pieces_intercalate {parts : List (List Char)} (hne : parts ≠ [])
    (h : ∀ part ∈ parts, sep ∉ part) : pieces sep ([sep].intercalate parts) = parts := by
  rw [pieces_eq_splitOn]
  exact List.splitOn_intercalate sep h hne

theorem mem_intercalate {parts : List (List Char)} {c : Char} (h : c ∈ [sep].intercalate parts) :
    c = sep ∨ ∃ part ∈ parts, c ∈ part := by
  induction parts with
  | nil => simp at h
  | cons part rest ih =>
    cases rest with
    | nil => exact .inr ⟨part, by simp, by simpa using h⟩
    | cons next more =>
      rw [List.intercalate_cons_cons, List.append_assoc, List.mem_append] at h
      rcases h with h | h
      · exact .inr ⟨part, by simp, h⟩
      · rcases List.mem_cons.mp h with h | h
        · exact .inl h
        · rcases ih h with h | ⟨other, ho, h⟩
          · exact .inl h
          · exact .inr ⟨other, List.mem_cons_of_mem _ ho, h⟩

theorem ne_of_not_mem (h : sep ∉ cs) : ∀ c ∈ cs, (c != sep) = true := by
  intro c hc
  simp only [bne_iff_ne, ne_eq]
  rintro rfl
  exact h hc

theorem before_append (h : sep ∉ cs) (ds : List Char) : before sep (cs ++ sep :: ds) = cs := by
  rw [before, List.takeWhile_append_of_pos (ne_of_not_mem h)]
  simp

theorem after?_append (h : sep ∉ cs) (ds : List Char) :
    after? sep (cs ++ sep :: ds) = some ds := by
  rw [after?, List.dropWhile_append_of_pos (ne_of_not_mem h)]
  simp

theorem before_of_not_mem (h : sep ∉ cs) : before sep cs = cs :=
  List.takeWhile_eq_self_iff.mpr (ne_of_not_mem h)

theorem after?_of_not_mem (h : sep ∉ cs) : after? sep cs = none := by
  have hd : cs.dropWhile (· != sep) = [] := List.dropWhile_eq_nil_iff.mpr (ne_of_not_mem h)
  rw [after?, hd]

theorem before_of_after?_eq_none (h : after? sep cs = none) : before sep cs = cs := by
  apply before_of_not_mem
  intro hm
  obtain ⟨front, back, rfl, hf⟩ := List.eq_append_cons_of_mem hm
  rw [after?_append hf] at h
  cases h

theorem afterLast_of_not_mem (h : sep ∉ cs) : afterLast sep cs = cs := by
  have hr : before sep cs.reverse = cs.reverse := before_of_not_mem (by simpa using h)
  rw [afterLast, ← before, hr, List.reverse_reverse]

theorem afterLast_append (h : sep ∉ ds) (cs : List Char) :
    afterLast sep (cs ++ sep :: ds) = ds := by
  have hr : before sep (ds.reverse ++ sep :: cs.reverse) = ds.reverse :=
    before_append (by simpa using h) _
  have hs : (cs ++ sep :: ds).reverse = ds.reverse ++ sep :: cs.reverse := by simp
  rw [afterLast, hs, ← before, hr, List.reverse_reverse]

end ServiceModel.Text
