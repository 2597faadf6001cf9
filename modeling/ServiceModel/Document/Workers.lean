import ServiceModel.Traced

/-!
# Work shared by several workers

Tasks are numbered by their positions. The workers complete them in an order that nobody chooses:
results are taken in as they come, and each is kept under the position of its task. When all have
come in they are put back in the order of the positions. A result that stops the work is the only
one that counts, and results that come in later are not taken in at all.
-/
namespace ServiceModel

/-- The order in which the workers complete `n` tasks: every position comes in, and only once. -/
structure Schedule where
  order : Nat → List Nat
  complete : ∀ n, (order n).Perm (List.range n)

namespace Schedule

/-- The tasks are completed in their own order. -/
def inOrder : Schedule := ⟨List.range, fun _ => .refl _⟩

def reversed : Schedule := ⟨fun n => (List.range n).reverse, fun n => (List.range n).reverse_perm⟩

end Schedule

namespace Workers
variable {τ α : Type}

/-- The results under their positions, put in the order of the positions. -/
def merged (results : List (Nat × α)) : List α :=
  (results.map (·.1)).mergeSort.filterMap fun position => results.lookup position

/-- Takes in runs with their positions, in the order in which they come, beside the results that
have been taken in before. -/
def takeIn (stops : α → Bool) (results : List (Nat × α)) :
    List (Nat × Traced τ α) → Traced τ (List α)
  | [] => pure (merged results)
  | (position, run) :: rest => do
    let result ← run
    if stops result then return [result]
    else takeIn stops (results ++ [(position, result)]) rest

/-- What is at the positions, each with its position. -/
def numbered {β : Type} (positions : List Nat) (items : List β) : List (Nat × β) :=
  positions.filterMap fun position => items[position]?.map fun item => (position, item)

/-- The results of runs that come in in the given order of positions. -/
def share (stops : α → Bool) (order : List Nat) (runs : List (Traced τ α)) : Traced τ (List α) :=
  takeIn stops [] (numbered order runs)

end Workers

end ServiceModel
