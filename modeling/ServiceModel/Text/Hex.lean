/-!
# Hexadecimal digits

Code points in escapes are written with a fixed number of lower-case hexadecimal digits.
-/
namespace ServiceModel.Text

def hex : Nat → Nat → List Char
  | 0, _ => []
  | width + 1, n => hex width (n / 16) ++ [Nat.digitChar (n % 16)]

theorem length_hex (width n : Nat) : (hex width n).length = width := by
  induction width generalizing n with
  | zero => rfl
  | succ width ih => simp [hex, ih]

end ServiceModel.Text
