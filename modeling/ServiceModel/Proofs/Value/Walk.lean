import ServiceModel.Issue.Path
import ServiceModel.Proofs.Shape.Language

/-!
# Walking a tree along a path

A path leads from a tree to a node of it: a text takes the entry of a mapping under that name, a
number the item of a sequence at that position. In a tree without pair lists in which every mapping
has texts for keys, every node below another has a path from it.
-/
namespace ServiceModel

namespace Value

/-- Every mapping in the tree has texts for keys. -/
def hasTextKeys : Value → Bool := everyNode fun
  | .map entries | .frozen entries => entries.all fun e => e.1.toValue.str?.isSome
  | .scalar _ | .list _ | .tuple _ | .pairs _ => true

/-- A tree in which everything can be walked to. -/
structure Walkable (value : Value) : Prop where
  pairFree : value.isPairFree = true
  textKeys : value.hasTextKeys = true
  wellFormed : value.isWellFormed = true

/-- The node under a name or at a position. -/
def step? (value token : Value) : Option Value :=
  match value, token with
  | .map es, .str name => Entries.field? es name
  | .frozen es, .str name => Entries.field? es name
  | .list items, .int n => if 0 ≤ n then items[n.toNat]? else none
  | .tuple items, .int n => if 0 ≤ n then items[n.toNat]? else none
  | _, _ => none

def at? (value : Value) : Path → Option Value
  | [] => some value
  | token :: rest => (value.step? token).bind fun node => node.at? rest

theorem at?_append (value : Value) (p q : Path) :
    value.at? (p ++ q) = (value.at? p).bind fun node => node.at? q := by
  induction p generalizing value with
  | nil => rfl
  | cons token rest ih =>
    rw [List.cons_append, at?, at?, Option.bind_assoc]
    exact congrArg _ (funext ih)

theorem at?_single (value token : Value) : value.at? [token] = value.step? token := by
  cases h : value.step? token <;> simp [at?, h]

variable {value : Value} {es : Entries Value} {items : List Value}

theorem IsMapping.at?_name (h : value.IsMapping es) (name : String) :
    value.at? [.str name] = es.field? name := by
  rw [at?_single]
  rcases h with rfl | rfl <;> rfl

theorem Items.at?_position (h : value.Items items) (n : Nat) :
    value.at? [.int n] = items[n]? := by
  rw [at?_single]
  cases h <;> simp [step?]

namespace Walkable

theorem distinct (h : value.Walkable) (hm : value.IsMapping es) :
    Entries.distinct (es.map (·.1)) = true := hm.maps.distinct h.wellFormed

theorem texts (h : value.Walkable) (hm : value.IsMapping es) : ∀ e ∈ es, e.1.IsText := by
  have keys : ∀ es : Entries Value, (es.all fun e => e.1.toValue.str?.isSome) = true →
      ∀ e ∈ es, e.1.IsText := by
    intro es h e he
    obtain ⟨name, hname⟩ := Option.isSome_iff_exists.mp (List.all_eq_true.mp h e he)
    exact ⟨name, toValue_injective (Check.str?_eq_some_iff.mp hname)⟩
  rcases hm with rfl | rfl
  · exact keys es ((everyNode_map_iff es).mp h.textKeys).1
  · exact keys es ((everyNode_frozen_iff es).mp h.textKeys).1

theorem entries (h : value.Walkable) (hm : value.IsMapping es) : ∀ e ∈ es, e.2.Walkable := by
  intro e he
  have free := hm.isPairFree h.pairFree e he
  rcases hm with rfl | rfl
  · exact ⟨free, ((everyNode_map_iff es).mp h.textKeys).2 e he,
      ((everyNode_map_iff es).mp h.wellFormed).2 e he⟩
  · exact ⟨free, ((everyNode_frozen_iff es).mp h.textKeys).2 e he,
      ((everyNode_frozen_iff es).mp h.wellFormed).2 e he⟩

theorem field (h : value.Walkable) (hm : value.IsMapping es) {name : String} {v : Value}
    (hv : es.field? name = some v) : v.Walkable := h.entries hm _ (Entries.mem_of_field? hv)

/-- What stands in a mapping is found under its name. -/
theorem exists_at? (h : value.Walkable) (hm : value.IsMapping es) :
    ∀ e ∈ es, ∃ name, e.1 = .str name ∧ value.at? [.str name] = some e.2 := by
  intro e he
  obtain ⟨name, hname⟩ := h.texts hm e he
  exact ⟨name, hname, (hm.at?_name name).trans
    (Entries.field?_of_mem (h.distinct hm) (hname ▸ he))⟩

theorem isMapping_of_entries? (h : value.Walkable) (he : value.entries? = .ok (some es)) :
    value.IsMapping es := by
  rcases entries?_eq_ok_some_iff.mp he with rfl | rfl | ⟨items, rfl, -⟩
  · exact .inl rfl
  · exact .inr rfl
  · cases h.pairFree

theorem parts (h : value.Walkable) (hi : value.Items items) : ∀ item ∈ items, item.Walkable := by
  intro item hm
  have free := isPairFree_of_items hi h.pairFree item hm
  have well := hi.isWellFormed h.wellFormed item hm
  cases hi with
  | list => exact ⟨free, ((everyNode_list_iff items).mp h.textKeys).2 item hm, well⟩
  | tuple => exact ⟨free, ((everyNode_tuple_iff items).mp h.textKeys).2 item hm, well⟩

end Walkable

end Value

end ServiceModel
