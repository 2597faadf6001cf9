import ServiceModel.Value.Scalar

/-!
# Mapping keys

A key is a scalar or a tuple of keys. Two keys are the same when their scalars compare equal,
place by place; a mapping holds no two keys that are the same.
-/
namespace ServiceModel

inductive Key
  | scalar (s : Scalar)
  | tuple (keys : List Key)

namespace Key

@[match_pattern] abbrev str (s : String) : Key := .scalar (.str s)

@[match_pattern] abbrev int (n : Int) : Key := .scalar (.int n)

mutual

def same : Key → Key → Bool
  | .scalar a, .scalar b => a.same b
  | .tuple xs, .tuple ys => sameAll xs ys
  | _, _ => false

def sameAll : List Key → List Key → Bool
  | [], [] => true
  | x :: xs, y :: ys => same x y && sameAll xs ys
  | _, _ => false

end

mutual

/-- Identity of form, in which 1 and true differ. -/
def identical : Key → Key → Bool
  | .scalar a, .scalar b => a == b
  | .tuple xs, .tuple ys => identicalAll xs ys
  | _, _ => false

def identicalAll : List Key → List Key → Bool
  | [], [] => true
  | x :: xs, y :: ys => identical x y && identicalAll xs ys
  | _, _ => false

end

mutual

theorem identical_iff : ∀ a b : Key, identical a b = true ↔ a = b
  | .scalar a, .scalar b => by simp [identical]
  | .tuple xs, .tuple ys => by simp [identical, identicalAll_iff xs ys]
  | .scalar _, .tuple _ => by simp [identical]
  | .tuple _, .scalar _ => by simp [identical]

theorem identicalAll_iff : ∀ xs ys : List Key, identicalAll xs ys = true ↔ xs = ys
  | [], [] => by simp [identicalAll]
  | [], _ :: _ => by simp [identicalAll]
  | _ :: _, [] => by simp [identicalAll]
  | x :: xs, y :: ys => by simp [identicalAll, identical_iff x y, identicalAll_iff xs ys]

end

instance : DecidableEq Key := fun a b => decidable_of_iff _ (identical_iff a b)

end Key

/-- The text of a sequence in round brackets; a single part keeps its comma. -/
def roundBracketed : List String → String
  | [part] => "(" ++ part ++ ",)"
  | parts => "(" ++ ", ".intercalate parts ++ ")"

namespace Key

mutual

def literal : Key → String
  | .scalar s => s.literal
  | .tuple keys => roundBracketed (literals keys)

def literals : List Key → List String
  | [] => []
  | key :: rest => literal key :: literals rest

end

def text : Key → String
  | .scalar s => s.text
  | key => key.literal

end Key

end ServiceModel
