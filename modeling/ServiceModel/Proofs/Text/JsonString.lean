import Mathlib.Algebra.GroupWithZero.Nat
import ServiceModel.Text.JsonString

/-!
# String literals are unambiguous

Where a literal begins, the text is known up to its end: no escape is the beginning of another, and
the closing quote stands in none. So a literal tells which text was written and what comes after it.
-/
namespace ServiceModel.Text

theorem digitChar_injective {m n : Nat} (hm : m < 16) (hn : n < 16)
    (h : Nat.digitChar m = Nat.digitChar n) : m = n := by
  have all : ∀ a b : Fin 16, Nat.digitChar a = Nat.digitChar b → a = b := by decide
  exact congrArg Fin.val (all ⟨m, hm⟩ ⟨n, hn⟩ h)

/-- The digits tell the number as far as they go. -/
theorem mod_eq_of_hex_eq {width m n : Nat} (h : hex width m = hex width n) :
    m % 16 ^ width = n % 16 ^ width := by
  induction width generalizing m n with
  | zero => rw [Nat.pow_zero, Nat.mod_one, Nat.mod_one]
  | succ width ih =>
    have lengths : (hex width (m / 16)).length = (hex width (n / 16)).length := by
      rw [length_hex, length_hex]
    obtain ⟨hfront, hlast⟩ := List.append_inj h lengths
    have last := digitChar_injective (Nat.mod_lt _ (by decide)) (Nat.mod_lt _ (by decide))
      (List.cons.inj hlast).1
    rw [Nat.pow_succ, Nat.mul_comm, Nat.mod_mul, Nat.mod_mul, ih hfront, last]

namespace JsonString
variable {c d : Char} {v w s t : List Char}

theorem unit_append_inj {m n : Nat} (hm : m < 0x10000) (hn : n < 0x10000)
    (h : unit m ++ s = unit n ++ t) : m = n ∧ s = t := by
  have digits : hex 4 m ++ s = hex 4 n ++ t := by simpa [unit] using h
  obtain ⟨hd, hs⟩ := List.append_inj digits (by rw [length_hex, length_hex])
  have same : m % 0x10000 = n % 0x10000 := mod_eq_of_hex_eq hd
  rw [Nat.mod_eq_of_lt hm, Nat.mod_eq_of_lt hn] at same
  exact ⟨same, hs⟩

/-- The character that a letter after a backslash stands for. -/
def named : Char → Char
  | 'n' => '\n'
  | 'r' => '\r'
  | 't' => '\t'
  | 'f' => '\x0c'
  | 'b' => '\x08'
  | c => c

/-- How a character is written inside a literal. -/
inductive Written : Char → List Char → Prop
  | plain {c : Char} (hs : c ≠ '\\') (hq : c ≠ '\x22') : Written c [c]
  | short {x : Char} (hu : x ≠ 'u') : Written (named x) ['\\', x]
  | unit {c : Char} (h : c.toNat < 0x10000) : Written c (unit c.toNat)
  | pair {c : Char} (h : 0x10000 ≤ c.toNat) :
    Written c (JsonString.unit (0xd800 + (c.toNat - 0x10000) / 0x400) ++
      JsonString.unit (0xdc00 + (c.toNat - 0x10000) % 0x400))

theorem written_escape (c : Char) : Written c (escape c) := by
  have short : ∀ {n : Nat} (x : Char), x ≠ 'u' → c.toNat = n → n = (named x).toNat →
      Written c ['\\', x] := by
    intro n x hu hn hx
    obtain rfl : c = named x := Char.toNat_inj.mp (hn.trans hx)
    exact .short hu
  unfold escape
  split
  case h_1 h =>
    obtain rfl : c = '\x22' := Char.toNat_inj.mp h
    exact .short (x := '\x22') (by decide)
  case h_2 h =>
    obtain rfl : c = '\\' := Char.toNat_inj.mp h
    exact .short (x := '\\') (by decide)
  case h_3 h => exact short 'n' (by decide) h rfl
  case h_4 h => exact short 'r' (by decide) h rfl
  case h_5 h => exact short 't' (by decide) h rfl
  case h_6 h => exact short 'f' (by decide) h rfl
  case h_7 h => exact short 'b' (by decide) h rfl
  case h_8 hq hs _ _ _ _ _ =>
    split
    · exact .plain (fun h => hs (by rw [h]; rfl)) fun h => hq (by rw [h]; rfl)
    · unfold units
      split
      · rename_i h
        exact .unit h
      · rename_i h
        exact .pair (by omega)

/-- A character is no half of a pair. -/
theorem toNat_of_char (c : Char) : c.toNat < 0xd800 ∨ 0xdfff < c.toNat ∧ c.toNat < 0x110000 :=
  c.valid

theorem Written.of_plain (hs : c ≠ '\\') (h : Written d w) (he : w ++ t = c :: s) :
    d = c ∧ t = s := by
  cases h with
  | plain => exact List.cons.inj he
  | short => exact absurd (List.cons.inj he).1.symm hs
  | unit => exact absurd (List.cons.inj he).1.symm hs
  | pair => exact absurd (List.cons.inj he).1.symm hs

theorem Written.of_short {x : Char} (hu : x ≠ 'u') (h : Written d w)
    (he : w ++ t = '\\' :: x :: s) : d = named x ∧ t = s := by
  cases h with
  | plain hs => exact absurd (List.cons.inj he).1 hs
  | @short y =>
    obtain ⟨hy, ht⟩ := List.cons.inj (List.cons.inj he).2
    exact ⟨congrArg named hy, ht⟩
  | unit => exact absurd (List.cons.inj (List.cons.inj he).2).1.symm hu
  | pair => exact absurd (List.cons.inj (List.cons.inj he).2).1.symm hu

theorem Written.of_unit {n : Nat} (hn : n < 0x10000) (h : Written d w)
    (he : w ++ t = JsonString.unit n ++ s) :
    (d.toNat = n ∧ t = s) ∨ 0x10000 ≤ d.toNat ∧ 0xd800 + (d.toNat - 0x10000) / 0x400 = n ∧
      JsonString.unit (0xdc00 + (d.toNat - 0x10000) % 0x400) ++ t = s := by
  cases h with
  | plain hs => exact absurd (List.cons.inj he).1 hs
  | short hu => exact absurd (List.cons.inj (List.cons.inj he).2).1 hu
  | unit hd => exact .inl (unit_append_inj hd hn he)
  | pair hd =>
    have hv := toNat_of_char d
    rw [List.append_assoc] at he
    obtain ⟨hh, ht⟩ := unit_append_inj (by omega) hn he
    exact .inr ⟨hd, hh, ht⟩

/-- What is written tells the character and what comes after it. -/
theorem Written.unique (hc : Written c v) (hd : Written d w) (he : v ++ s = w ++ t) :
    c = d ∧ s = t := by
  cases hc with
  | plain hs => exact (hd.of_plain hs he.symm).imp Eq.symm Eq.symm
  | short hu => exact (hd.of_short hu he.symm).imp Eq.symm Eq.symm
  | unit h =>
    have hv := toNat_of_char c
    have hv' := toNat_of_char d
    rcases hd.of_unit h he.symm with ⟨hn, ht⟩ | ⟨hp, hn, -⟩
    · exact ⟨Char.toNat_inj.mp hn.symm, ht.symm⟩
    · omega
  | pair h =>
    have hv := toNat_of_char c
    have hv' := toNat_of_char d
    rw [List.append_assoc] at he
    rcases hd.of_unit (by omega) he.symm with ⟨hn, -⟩ | ⟨hp, hn, ht⟩
    · omega
    · obtain ⟨hl, ht⟩ := unit_append_inj (by omega) (by omega) ht
      exact ⟨Char.toNat_inj.mp (by omega), ht.symm⟩

theorem Written.ne_quote (h : Written d w) : w ++ t ≠ '\x22' :: s := by
  intro he
  cases h with
  | plain _ hq => exact hq (List.cons.inj he).1
  | short => exact absurd (List.cons.inj he).1 (by decide)
  | unit => exact absurd (List.cons.inj he).1 (by decide)
  | pair => exact absurd (List.cons.inj he).1 (by decide)

theorem encode_append_inj {cs ds : List Char} (h : encode cs ++ s = encode ds ++ t) :
    cs = ds ∧ s = t := by
  have body : ∀ cs ds : List Char, cs.flatMap escape ++ '\x22' :: s =
      ds.flatMap escape ++ '\x22' :: t → cs = ds ∧ s = t := by
    intro cs
    induction cs with
    | nil =>
      intro ds he
      cases ds with
      | nil => exact ⟨rfl, (List.cons.inj he).2⟩
      | cons d rest =>
        rw [List.flatMap_cons, List.append_assoc] at he
        exact absurd he.symm (written_escape d).ne_quote
    | cons c rest ih =>
      intro ds he
      rw [List.flatMap_cons, List.append_assoc] at he
      cases ds with
      | nil => exact absurd he (written_escape c).ne_quote
      | cons d more =>
        rw [List.flatMap_cons, List.append_assoc] at he
        obtain ⟨rfl, hrest⟩ := (written_escape c).unique (written_escape d) he
        exact (ih more hrest).imp_left (congrArg (c :: ·))
  refine body cs ds ?_
  simpa [encode] using h

end JsonString

end ServiceModel.Text
