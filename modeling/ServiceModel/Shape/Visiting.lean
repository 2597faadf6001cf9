import ServiceModel.Value.Basic
import ServiceModel.Value.Entries

/-!
# The order of visits

A schema for the values of a mapping applies to every entry, but says nothing about the order in
which entries are visited. What depends on that order depends on a `Visiting`; whatever holds for
every one of them holds for every order.
-/
namespace ServiceModel

/-- An order in which the entries of a mapping are visited, each once. -/
class Visiting where
  order : Entries Value → Entries Value
  perm : ∀ entries, (order entries).Perm entries

namespace Visiting

theorem mem_order_iff [Visiting] {entries : Entries Value} {e : Key × Value} :
    e ∈ order entries ↔ e ∈ entries := (perm entries).mem_iff

def isText (e : Key × Value) : Bool := e.1.toValue.str?.isSome

def isNull (e : Key × Value) : Bool := e.1 == .scalar .null

/-- The entries under keys that are no texts, then those under texts, and that of the null key. -/
def nullLastOrder (entries : Entries Value) : Entries Value :=
  let named := entries.filter fun e => !isNull e
  (named.filter fun e => !isText e) ++ named.filter isText ++ entries.filter isNull

theorem nullLastOrder_perm (entries : Entries Value) : (nullLastOrder entries).Perm entries := by
  have named := List.filter_append_perm (fun e => !isText e) (entries.filter fun e => !isNull e)
  have all := List.filter_append_perm (fun e => !isNull e) entries
  simp only [Bool.not_not] at named all
  exact (named.append_right _).trans all

/-- An order to run with. -/
scoped instance nullLast : Visiting := ⟨nullLastOrder, nullLastOrder_perm⟩

end Visiting

end ServiceModel
