/-!
# Forms of whole numbers

A whole number is written with decimal places, with a power of ten, or in the shorter of these two
forms, in which zeros at the end of the fraction are left out. Where digits have to be dropped, the
number is rounded to the nearest that is left, a half to the even neighbour.
-/
namespace ServiceModel.Text.NumberForm

/-- The quotient to the nearest whole number, a half to the even neighbour. -/
def roundDiv (n d : Nat) : Nat :=
  if 2 * (n % d) < d then n / d
  else if d < 2 * (n % d) then n / d + 1
  else n / d + n / d % 2

theorem roundDiv_one (n : Nat) : roundDiv n 1 = n := by simp [roundDiv, Nat.mod_one]

theorem roundDiv_near (n : Nat) {d : Nat} (h : 0 < d) :
    2 * (d * roundDiv n d) ≤ 2 * n + d ∧ 2 * n ≤ 2 * (d * roundDiv n d) + d := by
  have hn := Nat.div_add_mod n d
  have hr := Nat.mod_lt n h
  have hs : d * (n / d + 1) = d * (n / d) + d := Nat.mul_succ d (n / d)
  unfold roundDiv
  split
  · omega
  · split
    · omega
    · rcases Nat.mod_two_eq_zero_or_one (n / d) with he | he
      · rw [he, Nat.add_zero]
        omega
      · rw [he]
        omega

theorem roundDiv_half_even (n d : Nat) (h : 2 * (n % d) = d) : roundDiv n d % 2 = 0 := by
  simp [roundDiv, h]
  omega

/-- The nearest of the numbers that a double holds, unless it lies beyond the greatest one. -/
def double? (n : Nat) : Option Nat :=
  let unit := Nat.pow 2 (n.log2 - 52)
  let nearest := roundDiv n unit * unit
  if nearest < Nat.pow 2 1024 then some nearest else none

def digits (n : Nat) : List Char := Nat.toDigits 10 n

/-- Zeros before a text bring it up to a number of characters. -/
def atLeast (count : Nat) (cs : List Char) : List Char :=
  List.replicate (count - cs.length) '0' ++ cs

theorem length_atLeast (count : Nat) (cs : List Char) :
    (atLeast count cs).length = max count cs.length := by
  simp [atLeast]
  omega

/-- Decimal places with the point before them; without places the point is left out unless it is
asked for. -/
def fraction (pointed : Bool) (places : List Char) : List Char :=
  if places.isEmpty && !pointed then [] else '.' :: places

def withoutZerosAtEnd (cs : List Char) : List Char := (cs.reverse.dropWhile (· == '0')).reverse

/-- The first digits of a number, as many as asked for, and the power of ten of the first one. -/
def leading (count n : Nat) : List Char × Nat :=
  let cs := digits n
  if cs.length ≤ count then (cs ++ List.replicate (count - cs.length) '0', cs.length - 1)
  else
    let dropped := cs.length - count
    let kept := digits (roundDiv n (Nat.pow 10 dropped))
    (kept.take count, kept.length + dropped - 1)

def placed (pointed : Bool) (places n : Nat) : List Char :=
  digits n ++ fraction pointed (List.replicate places '0')

/-- The mark of a power of ten and the power itself, which has two digits or more. -/
def power (upper : Bool) (n : Nat) : List Char :=
  (if upper then 'E' else 'e') :: '+' :: atLeast 2 (digits n)

def scientific (upper pointed : Bool) (places n : Nat) : List Char :=
  let (cs, top) := leading (places + 1) n
  cs.take 1 ++ fraction pointed (cs.drop 1) ++ power upper top

/-- The number as it is if it has no more digits than asked for, and otherwise in scientific form.
A point that is asked for brings the zeros at the end with it. -/
def general (upper pointed : Bool) (count n : Nat) : List Char :=
  let count := max count 1
  let missing := count - (digits n).length
  if (digits n).length ≤ count then
    digits n ++ if pointed then '.' :: List.replicate missing '0' else []
  else
    let (cs, top) := leading count n
    let places := if pointed then cs.drop 1 else withoutZerosAtEnd (cs.drop 1)
    cs.take 1 ++ fraction pointed places ++ power upper top

end ServiceModel.Text.NumberForm
