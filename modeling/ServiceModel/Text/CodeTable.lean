/-!
# Tables of code points

A character class is a list of ranges of code points in rising order. The look-up stops at the
first range that begins beyond the character, so the classes of low characters are found at once.
-/
namespace ServiceModel.Text

structure CodeRange where
  first : Nat
  last : Nat

def CodeRange.Holds (r : CodeRange) (n : Nat) : Prop := r.first ≤ n ∧ n ≤ r.last

def covers : List CodeRange → Nat → Bool
  | [], _ => false
  | r :: rest, n => if n < r.first then false else if n ≤ r.last then true else covers rest n

def table (bounds : List (Nat × Nat)) : List CodeRange := bounds.map fun b => ⟨b.1, b.2⟩

theorem holds_of_covers {ranges : List CodeRange} {n : Nat} (h : covers ranges n = true) :
    ∃ r ∈ ranges, r.Holds n := by
  induction ranges with
  | nil => simp [covers] at h
  | cons r rest ih =>
    unfold covers at h
    split at h
    · simp at h
    · split at h
      · exact ⟨r, List.mem_cons_self, by omega, by omega⟩
      · obtain ⟨s, hs, hn⟩ := ih h
        exact ⟨s, List.mem_cons_of_mem r hs, hn⟩

end ServiceModel.Text
