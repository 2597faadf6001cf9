import Mathlib.Algebra.GroupWithZero.Nat
import Mathlib.Data.List.Basic
import ServiceModel.Proofs.Text.Joined
import ServiceModel.Text.JsonString
import ServiceModel.Text.Quoted

/-!
# Lines of a text

A text has one line more than it has newlines, and the newlines of a text are those of its parts.
Quoted text has none, in whichever way it is quoted, and neither has a number.
-/
namespace ServiceModel.Text
variable {s t : String} {cs : List Char}

def newlines (s : String) : Nat := s.toList.count '\n'

/-- The parts of a text that its newlines separate. -/
def lines (s : String) : List String := (pieces '\n' s.toList).map String.ofList

theorem newlines_eq_zero_iff : newlines s = 0 ↔ '\n' ∉ s.toList := List.count_eq_zero

theorem newlines_ofList (h : '\n' ∉ cs) : newlines (String.ofList cs) = 0 := by
  rw [newlines_eq_zero_iff, String.toList_ofList]
  exact h

@[simp] theorem newlines_append (s t : String) : newlines (s ++ t) = newlines s + newlines t := by
  rw [newlines, String.toList_append, List.count_append]
  rfl

theorem newlines_intercalate {sep : String} (h : newlines sep = 0) (parts : List String) :
    newlines (sep.intercalate parts) = (parts.map newlines).sum := by
  induction parts with
  | nil => rfl
  | cons part rest ih =>
    cases rest with
    | nil => simp
    | cons next more =>
      rw [String.intercalate_cons_cons, newlines_append, newlines_append, ih, h]
      simp

theorem length_pieces (sep : Char) (cs : List Char) :
    (pieces sep cs).length = cs.count sep + 1 := by
  induction cs with
  | nil => rfl
  | cons c rest ih =>
    unfold pieces
    split
    · rename_i h
      rw [List.length_cons, ih, h, List.count_cons_self]
    · rename_i h
      rw [List.count_cons_of_ne h, ← ih]
      cases hp : pieces sep rest with
      | nil => exact absurd hp (pieces_ne_nil sep rest)
      | cons piece more => rfl

theorem length_lines (s : String) : (lines s).length = newlines s + 1 := by
  rw [lines, List.length_map, length_pieces, newlines]

theorem lines_eq_singleton_iff : lines s = [s] ↔ newlines s = 0 := by
  constructor
  · intro h
    have length := length_lines s
    rw [h] at length
    exact (Nat.succ.inj length).symm
  · intro h
    have whole : pieces '\n' (['\n'].intercalate [s.toList]) = [s.toList] :=
      pieces_intercalate (List.cons_ne_nil _ _)
        (List.forall_mem_singleton.mpr (newlines_eq_zero_iff.mp h))
    rw [List.intercalate_singleton] at whole
    rw [lines, whole, List.map_singleton, String.ofList_toList]

theorem lines_append_newline (s t : String) : lines (s ++ "\n" ++ t) = lines s ++ lines t := by
  have split : (s ++ "\n" ++ t).toList = s.toList ++ '\n' :: t.toList := by simp
  rw [lines, split, pieces_eq_splitOn, List.splitOn_eq_splitOnP,
    List.splitOnP_append_cons _ _ (p := fun c => c == '\n') rfl, List.map_append,
    ← List.splitOn_eq_splitOnP, ← List.splitOn_eq_splitOnP, ← pieces_eq_splitOn,
    ← pieces_eq_splitOn, lines, lines]

theorem lines_intercalate {parts : List String} (h : parts ≠ []) :
    lines ("\n".intercalate parts) = parts.flatMap lines := by
  induction parts with
  | nil => exact absurd rfl h
  | cons part rest ih =>
    cases rest with
    | nil => simp
    | cons next more =>
      rw [String.intercalate_cons_cons, lines_append_newline, ih (List.cons_ne_nil _ _),
        ← List.flatMap_cons]

theorem length_flatMap_lines (parts : List String) :
    (parts.flatMap lines).length = parts.length + (parts.map newlines).sum := by
  induction parts with
  | nil => rfl
  | cons part rest ih =>
    rw [List.flatMap_cons, List.length_append, ih, length_lines, List.length_cons, List.map_cons,
      List.sum_cons]
    omega

/-- Joined by newlines, the parts are the lines exactly if each of them is a single one. -/
theorem lines_intercalate_eq_iff {parts : List String} (h : parts ≠ []) :
    lines ("\n".intercalate parts) = parts ↔ ∀ part ∈ parts, newlines part = 0 := by
  rw [lines_intercalate h]
  constructor
  · intro he
    have length := length_flatMap_lines parts
    rw [he, Nat.left_eq_add, List.sum_eq_zero_iff_forall_eq_nat] at length
    exact List.forall_mem_map.mp length
  · intro hparts
    calc parts.flatMap lines = parts.flatMap fun part => [part] :=
          List.flatMap_congr fun part hp => lines_eq_singleton_iff.mpr (hparts part hp)
      _ = parts := by simp

theorem pieces_append {sep : Char} {piece : List Char} {ds : List Char} {more : List (List Char)}
    (h : sep ∉ cs) (hd : pieces sep ds = piece :: more) :
    pieces sep (cs ++ ds) = (cs ++ piece) :: more := by
  induction cs with
  | nil => exact hd
  | cons c rest ih =>
    obtain ⟨hc, hr⟩ := List.ne_and_not_mem_of_not_mem_cons h
    rw [List.cons_append, pieces, if_neg hc.symm, ih hr]
    rfl

/-- What stands before the first newline stays there when the text goes on. -/
theorem exists_lines_append (h : newlines s = 0) (t : String) :
    ∃ first rest, lines (s ++ t) = (s ++ first) :: rest ∧ rest.length = newlines t := by
  obtain ⟨piece, more, hp⟩ := List.exists_cons_of_ne_nil (pieces_ne_nil '\n' t.toList)
  refine ⟨String.ofList piece, more.map String.ofList, ?_, ?_⟩
  · rw [lines, String.toList_append, pieces_append (newlines_eq_zero_iff.mp h) hp, List.map_cons,
      String.ofList_append, String.ofList_toList]
  · have length := length_pieces '\n' t.toList
    rw [hp, List.length_cons] at length
    rw [List.length_map]
    exact Nat.succ.inj length

/-! Text without newlines. -/

theorem isDigit_of_mem_repr {n : Nat} {c : Char} (h : c ∈ n.repr.toList) : c.isDigit = true := by
  rw [Nat.toList_repr] at h
  exact Nat.isDigit_of_mem_toDigits (by decide) (by decide) h

theorem isDigit_or_minus_of_mem_toString {n : Int} {c : Char} (h : c ∈ (toString n).toList) :
    c.isDigit = true ∨ c = '-' := by
  cases n with
  | ofNat m => exact .inl (isDigit_of_mem_repr h)
  | negSucc m =>
    have written : toString (Int.negSucc m) = "-" ++ (m + 1).repr := rfl
    rw [written, String.toList_append, List.mem_append] at h
    exact h.symm.imp isDigit_of_mem_repr List.mem_singleton.mp

@[simp] theorem newlines_repr (n : Nat) : newlines n.repr = 0 :=
  newlines_eq_zero_iff.mpr fun h => absurd (isDigit_of_mem_repr h) (by decide)

theorem newlines_toString_int (n : Int) : newlines (toString n) = 0 :=
  newlines_eq_zero_iff.mpr fun h => by
    have digit := isDigit_or_minus_of_mem_toString h
    revert digit
    decide

theorem newline_not_mem_hex (width n : Nat) : '\n' ∉ hex width n := by
  have digits : ∀ d : Fin 16, '\n' ≠ Nat.digitChar d := by decide
  induction width generalizing n with
  | zero => exact List.not_mem_nil
  | succ width ih =>
    refine List.not_mem_append (ih _) fun h => ?_
    exact digits ⟨n % 16, Nat.mod_lt _ (by decide)⟩ (List.mem_singleton.mp h)

namespace Quoted

theorem newline_not_mem_codePoint (c : Char) : '\n' ∉ codePoint c := by
  unfold codePoint
  split
  · simpa using newline_not_mem_hex 2 c.toNat
  · split
    · simpa using newline_not_mem_hex 4 c.toNat
    · simpa using newline_not_mem_hex 8 c.toNat

theorem newline_not_mem_escape {quote : Char} (h : quote ≠ '\n') (c : Char) :
    '\n' ∉ escape quote c := by
  by_cases hc : c = '\n'
  · subst hc
    simp [escape, h.symm]
  have alone : '\n' ∉ [c] := by simpa using Ne.symm hc
  unfold escape
  rw [if_neg hc]
  split
  · exact List.not_mem_cons_of_ne_of_not_mem (by decide) alone
  split
  · decide
  split
  · decide
  split
  · exact alone
  · exact newline_not_mem_codePoint c

theorem newline_not_mem_encode (cs : List Char) : '\n' ∉ encode cs := by
  have quote : quoteFor cs ≠ '\n' := by
    unfold quoteFor
    split <;> decide
  have body : '\n' ∉ cs.flatMap (escape (quoteFor cs)) := by
    simp only [List.mem_flatMap, not_exists, not_and]
    exact fun c _ => newline_not_mem_escape quote c
  simp [encode, quote.symm, body]

end Quoted

namespace JsonString

theorem newline_not_mem_escape (c : Char) : '\n' ∉ escape c := by
  have alone {n : Nat} (hn : n ≠ 0x0a) (h : c.toNat = n) : '\n' ∉ [c] := by
    rintro hc
    obtain rfl := List.mem_singleton.mp hc
    exact hn h.symm
  have unit (n : Nat) : '\n' ∉ unit n := by simpa [JsonString.unit] using newline_not_mem_hex 4 n
  unfold escape
  split
  case h_1 h => exact List.not_mem_cons_of_ne_of_not_mem (by decide) (alone (by decide) h)
  case h_2 h => exact List.not_mem_cons_of_ne_of_not_mem (by decide) (alone (by decide) h)
  case h_8 _ _ h _ _ _ _ =>
    split
    · exact alone h rfl
    · unfold units
      split
      · exact unit _
      · exact List.not_mem_append (unit _) (unit _)
  all_goals decide

theorem newline_not_mem_encode (cs : List Char) : '\n' ∉ encode cs := by
  simp only [encode, List.mem_cons, List.mem_append, List.mem_flatMap, not_or, not_exists, not_and]
  exact ⟨⟨by decide, fun c _ => newline_not_mem_escape c⟩, by decide, List.not_mem_nil⟩

end JsonString

end ServiceModel.Text
