import Mathlib.Data.List.Basic
import ServiceModel.Issue.Path
import ServiceModel.Proofs.Text.Joined

/-!
# Pointers decode to their tokens

A pointer is decoded by cutting it at its slashes and undoing the escapes of each piece. Escaped
text holds no slash, so the cuts are those between tokens. A tilde begins both escapes, so they
are undone in the order opposite to that in which they were made: while slashes are read, each
tilde of the token is still followed by its zero.
-/
namespace ServiceModel.Path
open Text

/-- Writes `c` for each tilde that is followed by `d`, from the left. -/
def undo (d c : Char) : List Char → List Char
  | [] => []
  | [a] => [a]
  | a :: b :: rest => if a = '~' ∧ b = d then c :: undo d c rest else a :: undo d c (b :: rest)

/-- The text that a piece of a pointer stands for; the slashes have to be read first. -/
def unescape (piece : List Char) : List Char := undo '0' '~' (undo '1' '/' piece)

/-- The tokens of a pointer, which is empty or starts with a slash. -/
def decode? (pointer : String) : Option (List String) :=
  match pieces '/' pointer.toList with
  | [] :: pieces => some (pieces.map fun piece => String.ofList (unescape piece))
  | _ => none

section
variable {c d : Char} {rest : List Char}

theorem undo_escape (d c : Char) (rest : List Char) :
    undo d c ('~' :: d :: rest) = c :: undo d c rest := by
  rw [undo, if_pos ⟨rfl, rfl⟩]

theorem undo_cons {a : Char} (h : a ≠ '~') : undo d c (a :: rest) = a :: undo d c rest := by
  cases rest with
  | nil => rfl
  | cons b rest => rw [undo, if_neg fun hab => h hab.1]

theorem undo_tilde {b : Char} (h : b ≠ d) :
    undo d c ('~' :: b :: rest) = '~' :: undo d c (b :: rest) := by
  rw [undo, if_neg fun hab => h hab.2]

end

/-- Writes a tilde and `d` for each `c`. -/
def escape (c d : Char) (cs : List Char) : List Char :=
  cs.flatMap fun a => if a = c then ['~', d] else [a]

theorem escape_cons (c d a : Char) (rest : List Char) :
    escape c d (a :: rest) = (if a = c then ['~', d] else [a]) ++ escape c d rest :=
  List.flatMap_cons ..

/-- Tildes are escaped before slashes, which bring in tildes of their own. -/
theorem flatMap_escapePointer (cs : List Char) :
    cs.flatMap escapePointer = escape '/' '1' (escape '~' '0' cs) := by
  rw [escape, escape, List.flatMap_assoc]
  refine List.flatMap_congr fun c _ => ?_
  unfold escapePointer
  by_cases tilde : c = '~'
  · rw [if_pos tilde, if_pos tilde]
    rfl
  · rw [if_neg tilde, if_neg tilde, List.flatMap_singleton]

theorem undo_tildes (cs : List Char) : undo '0' '~' (escape '~' '0' cs) = cs := by
  induction cs with
  | nil => rfl
  | cons c rest ih =>
    rw [escape_cons]
    by_cases tilde : c = '~'
    · subst tilde
      exact (undo_escape '0' '~' _).trans (congrArg _ ih)
    · rw [if_neg tilde]
      exact (undo_cons tilde).trans (congrArg _ ih)

/-- Each tilde is followed by its zero where the slashes are read, so no slash is read too many. -/
theorem undo_slashes (cs : List Char) :
    undo '1' '/' (escape '/' '1' (escape '~' '0' cs)) = escape '~' '0' cs := by
  induction cs with
  | nil => rfl
  | cons c rest ih =>
    rw [escape_cons]
    by_cases tilde : c = '~'
    · rw [if_pos tilde]
      calc undo '1' '/' ('~' :: '0' :: escape '/' '1' (escape '~' '0' rest))
        _ = '~' :: undo '1' '/' ('0' :: escape '/' '1' (escape '~' '0' rest)) :=
            undo_tilde (by decide)
        _ = '~' :: '0' :: undo '1' '/' (escape '/' '1' (escape '~' '0' rest)) :=
            congrArg _ (undo_cons (by decide))
        _ = '~' :: '0' :: escape '~' '0' rest := by rw [ih]
    · rw [if_neg tilde, List.singleton_append, escape_cons]
      by_cases slash : c = '/'
      · subst slash
        exact (undo_escape '1' '/' _).trans (congrArg _ ih)
      · rw [if_neg slash]
        exact (undo_cons tilde).trans (congrArg _ ih)

theorem unescape_escape (cs : List Char) : unescape (cs.flatMap escapePointer) = cs := by
  rw [flatMap_escapePointer, unescape, undo_slashes, undo_tildes]

theorem slash_not_mem_escape (cs : List Char) : '/' ∉ cs.flatMap escapePointer := by
  intro h
  obtain ⟨c, -, hc⟩ := List.mem_flatMap.mp h
  unfold escapePointer at hc
  split at hc
  · revert hc
    decide
  · split at hc
    · revert hc
      decide
    · rename_i slash
      exact slash (List.mem_singleton.mp hc).symm

theorem intercalate_cons (sep : Char) (part : List Char) (parts : List (List Char)) :
    [sep].intercalate (part :: parts) = part ++ parts.flatMap fun part => sep :: part := by
  induction parts generalizing part with
  | nil => simp
  | cons next rest ih =>
    rw [List.intercalate_cons_cons, ih, List.flatMap_cons, List.append_assoc]
    rfl

/-- A pointer is cut into nothing and the escaped tokens. -/
theorem pieces_pointer (p : Path) : pieces '/' p.pointer.toList =
    [] :: p.map fun token => token.text.toList.flatMap escapePointer := by
  have joined : p.pointer.toList =
      ['/'].intercalate ([] :: p.map fun token => token.text.toList.flatMap escapePointer) := by
    rw [intercalate_cons, List.flatMap_map, pointer, String.toList_ofList]
    rfl
  rw [joined]
  refine pieces_intercalate (List.cons_ne_nil _ _) (List.forall_mem_cons.mpr ⟨by simp, ?_⟩)
  exact List.forall_mem_map.mpr fun token _ => slash_not_mem_escape _

theorem decode?_pointer (p : Path) : decode? p.pointer = some (p.map Value.text) := by
  unfold decode?
  rw [pieces_pointer]
  simp only [List.map_map]
  refine congrArg some (List.map_congr_left fun token _ => ?_)
  rw [Function.comp_apply, unescape_escape, String.ofList_toList]

end ServiceModel.Path

namespace ServiceModel

/-- A pointer decodes to the texts of the tokens of its path. So it tells apart all paths but those
whose tokens have the same texts, and only that of the empty path is empty. -/
theorem pointers_decode (p : Path) : Path.decode? p.pointer = some (p.map Value.text) ∧
    (∀ q : Path, p.pointer = q.pointer ↔ p.map Value.text = q.map Value.text) ∧
    (p.pointer = "" ↔ p = []) := by
  have same_iff : ∀ q : Path, p.pointer = q.pointer ↔ p.map Value.text = q.map Value.text := by
    intro q
    constructor
    · intro h
      have decoded := congrArg Path.decode? h
      rw [Path.decode?_pointer, Path.decode?_pointer] at decoded
      exact Option.some.inj decoded
    · intro h
      have escaped (p : Path) : p.pointer = String.ofList ((p.map Value.text).flatMap fun text =>
          '/' :: text.toList.flatMap Path.escapePointer) := by
        rw [List.flatMap_map]
        rfl
      rw [escaped, escaped, h]
  exact ⟨Path.decode?_pointer p, same_iff, (same_iff []).trans List.map_eq_nil_iff⟩

/-- The order of the escapes counts: read the other way round, this piece would hold a slash. -/
example : Path.decode? "/~01/a~1b~0/" = some ["~1", "a/b~", ""] := by decide

end ServiceModel
