import ServiceModel.Value.Mapping

/-!
# Limits of the machine

A value tree can be of any size, but the machine that validates it has limits: it refuses to write
an integer with too many digits, and it refuses a call when too many calls are open. Writing a tree
opens one call for each level of it. Walking through a tree, which makes its plain or fixed form,
opens two for each level, one for the value and one for what it holds.
-/
namespace ServiceModel

/-- How many digits of an integer can be written, and how many calls can be open at a time. -/
structure Limits where
  digits : Nat
  calls : Nat
deriving DecidableEq, Repr

namespace Limits

/-- The limits that are in force unless they are changed. Of a thousand calls, some are open when
the validation begins. -/
def usual : Limits := ⟨4300, 980⟩

def writeScalar (limits : Limits) : Scalar → Except Fault Unit
  | .int n => if n.natAbs < Nat.pow 10 limits.digits then .ok () else .error .integerTooLong
  | _ => .ok ()

/-- Writes a tree, keys included, while so many calls are left. -/
def writeWith (limits : Limits) : Nat → Value → Except Fault Unit
  | _ + 1, .scalar s => limits.writeScalar s
  | calls + 1, .list items | calls + 1, .tuple items | calls + 1, .pairs items =>
    items.forM (writeWith limits calls)
  | calls + 1, .map entries | calls + 1, .frozen entries =>
    entries.forM fun e => do
      writeWith limits calls e.1.toValue
      writeWith limits calls e.2
  | 0, _ => .error .nestedTooDeep

def write (limits : Limits) (value : Value) : Except Fault Unit :=
  limits.writeWith limits.calls value

/-- Walks through a tree while so many calls are left. Keys are not walked through. -/
def walkWith : Nat → Value → Except Fault Unit
  | _ + 1, .scalar _ => .ok ()
  | calls + 2, .list items | calls + 2, .tuple items => items.forM (walkWith calls)
  | calls + 2, .map entries | calls + 2, .frozen entries =>
    entries.forM fun e => walkWith calls e.2
  | calls + 2, .pairs items =>
    match Value.keyedEntries items with
    | .ok entries => entries.forM fun e => walkWith calls e.2
    -- What is no pair list of entries has no plain form to be made.
    | .error _ => .ok ()
  | _, _ => .error .nestedTooDeep

def walk (limits : Limits) (value : Value) : Except Fault Unit := walkWith limits.calls value

/-- The value is nested so little that it can be walked through, and its integers are so small that
they can be written. -/
def allows (limits : Limits) (value : Value) : Bool :=
  (limits.writeWith (limits.calls / 2) value).isOk

end Limits

end ServiceModel
