/-!
# Cutting text at a separator

`before` and `after?` cut at the first separator, `afterLast` at the last one and `pieces` at
every one. The parts and the separators make up the text again.
-/
namespace ServiceModel.Text

def before (sep : Char) (cs : List Char) : List Char := cs.takeWhile (· != sep)

def after? (sep : Char) (cs : List Char) : Option (List Char) :=
  match cs.dropWhile (· != sep) with
  | [] => none
  | _ :: rest => some rest

/-- What follows the last separator, or the whole text if there is none. -/
def afterLast (sep : Char) (cs : List Char) : List Char := (cs.reverse.takeWhile (· != sep)).reverse

def pieces (sep : Char) : List Char → List (List Char)
  | [] => [[]]
  | c :: rest =>
    if c = sep then [] :: pieces sep rest
    else match pieces sep rest with
      | [] => [[c]]
      | piece :: more => (c :: piece) :: more

theorem pieces_ne_nil (sep : Char) (cs : List Char) : pieces sep cs ≠ [] := by
  cases cs with
  | nil => simp [pieces]
  | cons c rest =>
    unfold pieces
    split
    · simp
    · split <;> simp

theorem intercalate_pieces (sep : Char) (cs : List Char) :
    List.intercalate [sep] (pieces sep cs) = cs := by
  induction cs with
  | nil => rfl
  | cons c rest ih =>
    unfold pieces
    split
    · rename_i h
      cases hp : pieces sep rest with
      | nil => exact absurd hp (pieces_ne_nil sep rest)
      | cons piece more => rw [hp] at ih; simp [List.intercalate, List.intersperse, ← ih, h]
    · cases hp : pieces sep rest with
      | nil => exact absurd hp (pieces_ne_nil sep rest)
      | cons piece more =>
        rw [hp] at ih
        cases more <;> simp_all [List.intercalate, List.intersperse]

theorem before_append_after {sep : Char} {cs rest : List Char} (h : after? sep cs = some rest) :
    before sep cs ++ sep :: rest = cs := by
  unfold after? at h
  split at h
  · simp at h
  · rename_i c tail hd
    obtain rfl : tail = rest := Option.some.inj h
    have hc : c = sep := by
      have := List.head_dropWhile_not (· != sep) (l := cs) (by rw [hd]; simp)
      simpa [hd] using this
    subst hc
    calc before c cs ++ c :: tail = cs.takeWhile (· != c) ++ cs.dropWhile (· != c) := by
          rw [hd]; rfl
      _ = cs := List.takeWhile_append_dropWhile

end ServiceModel.Text
