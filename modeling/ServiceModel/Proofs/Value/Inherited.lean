import ServiceModel.Proofs.Text.Lines
import ServiceModel.Proofs.Value.Plain

/-!
# Properties that go over to what is read

A property of values is inherited if it goes over from a value to everything that is read from it:
the items of a sequence, the keys and the values of a mapping, the entries of a pair list in both
readings, the plain form. It must also hold of what is put in for something that is absent.
-/
namespace ServiceModel

/-- The property holds of every key and of every value. -/
def Entries.Each (P : Value → Prop) (es : Entries Value) : Prop := ∀ e ∈ es, P e.1.toValue ∧ P e.2

namespace Value

structure Inherited (P : Value → Prop) : Prop where
  null : P .null
  empty : P (.map [])
  fixed : ∀ s, Text.newlines s = 0 → P (.str s)
  list : ∀ {items}, P (.list items) → ∀ item ∈ items, P item
  tuple : ∀ {items}, P (.tuple items) → ∀ item ∈ items, P item
  pairs : ∀ {items}, P (.pairs items) → ∀ item ∈ items, P item
  map : ∀ {es : Entries Value}, P (.map es) → es.Each P
  entries : ∀ {value : Value} {es : Entries Value}, P value → value.entries? = .ok (some es) →
    P (.map es)
  listed : ∀ {value : Value} {es : Entries Value}, P value → value.Lists es → es.Each P
  split : ∀ {value : Value} {items : List Value} {es : List (Value × Value)}, P value →
    value.items? = some items → splitAll items = .ok es → ∀ e ∈ es, P e.1 ∧ P e.2
  plain : ∀ {value plain : Value}, P value → value.HasPlain plain → P plain

end Value

namespace Entries
variable {P : Value → Prop} {es : Entries Value}

theorem Each.ofList (h : es.Each P) : (Entries.ofList es).Each P := by
  intro e he
  obtain ⟨hk, hv⟩ := sides_of_mem_ofList he
  obtain ⟨d, hd, hkey⟩ := List.mem_map.mp hk
  obtain ⟨f, hf, hvalue⟩ := List.mem_map.mp hv
  exact ⟨hkey ▸ (h d hd).1, hvalue ▸ (h f hf).2⟩

theorem Each.field? (h : es.Each P) {name : String} {value : Value}
    (hf : es.field? name = some value) : P value :=
  (h _ (mem_of_field? hf)).2

theorem Each.field_getD (h : es.Each P) (name : String) {default : Value} (hd : P default) :
    P ((es.field? name).getD default) := by
  cases hf : es.field? name with
  | none => exact hd
  | some v => exact h.field? hf

end Entries

end ServiceModel
