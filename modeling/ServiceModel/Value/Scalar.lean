import ServiceModel.Value.Decimal
import ServiceModel.Text.Quoted

/-!
# Scalars

The leaves of a value tree. Booleans, integers and floating-point numbers compare by value across
their types, so true equals 1; everything else compares within its own type. A scalar has two
written forms: `literal` quotes text, `text` gives it as it is.
-/
namespace ServiceModel

inductive Scalar
  | null
  | bool (b : Bool)
  | int (n : Int)
  | float (x : Decimal)
  | str (s : String)
deriving DecidableEq, Repr

namespace Scalar

def integral? : Scalar → Option Int
  | .bool b => some (if b then 1 else 0)
  | .int n => some n
  | .float x => x.integral?
  | _ => none

def isUndefined : Scalar → Bool
  | .float x => x.isUndefined
  | _ => false

def same (a b : Scalar) : Bool :=
  match a.integral?, b.integral? with
  | some m, some n => m == n
  | none, none => decide (a = b) && !a.isUndefined
  | _, _ => false

theorem same_true_one : same (.bool true) (.int 1) = true := by decide

theorem same_str (s t : String) : same (.str s) (.str t) = decide (s = t) := by
  simp [same, integral?, isUndefined]

/-- An integer is written with all its digits; how many can be written is a matter of
`ServiceModel.Limits`. -/
def literal : Scalar → String
  | .null => "None"
  | .bool true => "True"
  | .bool false => "False"
  | .int n => toString n
  | .float x => x.text
  | .str s => String.ofList (Text.Quoted.encode s.toList)

def text : Scalar → String
  | .str s => s
  | s => s.literal

end Scalar

end ServiceModel
