/-!
# Binary floating-point numbers as text

A floating-point number is kept as its shortest decimal text, which determines it. The text
suffices to print the number; `integral?` gives its exact value when that is an integer, which is
all that a comparison with integers needs. Two numbers that are not integral are equal only if
their texts are, and the undefined number, `nan`, equals nothing.
-/
namespace ServiceModel

structure Decimal where
  text : String
deriving DecidableEq, Repr

namespace Decimal

/-- The value of a run of decimal digits before anything else. -/
def natural (cs : List Char) : Nat :=
  (cs.takeWhile Char.isDigit).foldl (fun n c => 10 * n + (c.toNat - '0'.toNat)) 0

/-- Splits an unsigned text into its digits without the point, the number of them that follow the
point, and the decimal exponent. -/
def parts? (cs : List Char) : Option (List Char × Nat × Int) :=
  let whole := cs.takeWhile Char.isDigit
  let rest := cs.dropWhile Char.isDigit
  let (fraction, rest) := match rest with
    | '.' :: more => (more.takeWhile Char.isDigit, more.dropWhile Char.isDigit)
    | more => ([], more)
  let exponent : Option Int := match rest with
    | [] => some 0
    | 'e' :: '-' :: more => some (-(natural more : Int))
    | 'e' :: '+' :: more => some (natural more : Int)
    | 'e' :: more => some (natural more : Int)
    | _ => none
  if whole.isEmpty then none
  else exponent.map fun e => (whole ++ fraction, fraction.length, e)

/-- The exact value of a finite double, given by its bits without the sign, if it is an integer. -/
def integralOfBits (bits : Nat) : Option Nat :=
  let exponent := bits / Nat.pow 2 52 % Nat.pow 2 11
  let fraction := bits % Nat.pow 2 52
  let mantissa := if exponent = 0 then fraction else Nat.pow 2 52 + fraction
  let shift := if exponent = 0 then 1 else exponent
  if 1075 ≤ shift then some (mantissa * Nat.pow 2 (shift - 1075))
  else if mantissa % Nat.pow 2 (1075 - shift) = 0 then some (mantissa / Nat.pow 2 (1075 - shift))
  else none

def magnitude? (cs : List Char) : Option Nat := do
  let (digits, places, exponent) ← parts? cs
  let scale : Int := exponent - places
  let double := Float.ofScientific (natural digits) (scale < 0) scale.natAbs
  integralOfBits (double.toBits.toNat % Nat.pow 2 63)

def integral? (x : Decimal) : Option Int :=
  match x.text.toList with
  | '-' :: rest => (magnitude? rest).map fun n => -(n : Int)
  | cs => (magnitude? cs).map Int.ofNat

def isUndefined (x : Decimal) : Bool := x.text == "nan"

end Decimal

end ServiceModel
