import ServiceModel.Proofs.Value.Plain

/-!
# The normal form of a plain document

A model does not keep whether something empty was written or left out. The normal form drops what
can be left out: empty metadata, an empty list of mixins, an empty mapping of traits of a member. It
adds shapes that are absent as an empty mapping.

The fields of a document, of a definition and of a member may be written in any order. Two values
are the same document, definition or member if nothing but that order tells them apart: the entries
of all other mappings and the items of all lists have their places.
-/
namespace ServiceModel

/-- Each entry gets another value or is dropped. -/
def Entries.revise (change : Key → Value → Option Value) (es : Entries Value) : Entries Value :=
  es.filterMap fun e => (change e.1 e.2).map fun value => (e.1, value)

namespace Value

def revise (change : Key → Value → Option Value) : Value → Value
  | .map es => .map (Entries.revise change es)
  | value => value

def normalMember : Value → Value := revise fun key value =>
  if key = .str "traits" ∧ value = .map [] then none else some value

def normalMembers : Value → Value := revise fun _ value => some (normalMember value)

def normalField (key : Key) (value : Value) : Value :=
  if key = .str "member" then normalMember value
  else if key = .str "members" then normalMembers value
  else value

def normalDefinition : Value → Value := revise fun key value =>
  if key = .str "mixins" ∧ value = .list [] then none else some (normalField key value)

def normalDefinitions : Value → Value := revise fun _ value => some (normalDefinition value)

def normalFields : Value → Value := revise fun key value =>
  if key = .str "metadata" ∧ value = .map [] then none
  else if key = .str "shapes" then some (normalDefinitions value)
  else some value

def withShapes : Value → Value
  | .map es => if (Entries.field? es "shapes").isSome then .map es
    else .map (Entries.insert es (.str "shapes") (.map []))
  | value => value

def normalDocument (document : Value) : Value := normalFields (withShapes document)

/-- Two mappings with the same keys in the same order, and with values that `R` relates. -/
def SameEntries (R : Value → Value → Prop) (v w : Value) : Prop :=
  ∃ es fs, v = .map es ∧ w = .map fs ∧ Entries.Pointwise R es fs

/-- Two mappings with the same keys in any order, and with values that `R` relates for their key. -/
def SameFields (R : Key → Value → Value → Prop) (v w : Value) : Prop :=
  ∃ es fs gs, v = .map es ∧ w = .map gs ∧ gs.Perm fs ∧ Entries.PointwiseAt R es fs

def SameMember : Value → Value → Prop := SameFields fun _ => Eq

def SameField (key : Key) (v w : Value) : Prop :=
  if key = .str "member" then SameMember v w
  else if key = .str "members" then SameEntries SameMember v w
  else v = w

def SameDefinition : Value → Value → Prop := SameFields SameField

def SameDocument : Value → Value → Prop := SameFields fun key v w =>
  if key = .str "shapes" then SameEntries SameDefinition v w else v = w

end Value

namespace Entries

theorem revise_tabulate (change : Key → Value → Option Value) (names : List String)
    (held : String → Option Value) : (tabulate names held).revise change =
      tabulate names fun name => (held name).bind (change (.str name)) := by
  unfold revise tabulate
  rw [List.filterMap_filterMap]
  congr 1
  funext name
  cases h : held name <;> simp [h]

end Entries

namespace Value

theorem exists_withShapes (es : Entries Value) (hd : Entries.distinct (es.map (·.1)) = true) :
    ∃ fs : Entries Value, withShapes (.map es) = .map fs ∧
      Entries.distinct (fs.map (·.1)) = true ∧
      (∀ f ∈ fs, f.1 ∈ es.map (·.1) ∨ f.1 = .str "shapes") ∧
      ∀ name, fs.field? name = if "shapes" = name
        then some ((es.field? "shapes").getD (.map [])) else es.field? name := by
  cases h : es.field? "shapes" with
  | none =>
    refine ⟨_, if_neg (by simp [h]), Entries.distinct_insert hd _ _, fun f hf => ?_, fun name => ?_⟩
    · have hk := Entries.keys_insert_subset es _ _ (List.mem_map_of_mem (f := (·.1)) hf)
      simpa using hk
    · exact Entries.field?_insert es "shapes" (.map []) name
  | some v =>
    refine ⟨es, if_pos (by simp [h]), hd, fun f hf => .inl (List.mem_map_of_mem hf), fun name => ?_⟩
    split
    · rename_i hn
      rw [← hn]
      exact h
    · rfl

/-- Fields written by name are the same as the revised fields of a mapping if they are so name by
name. -/
theorem sameFields_revise {R : Key → Value → Value → Prop} {change : Key → Value → Option Value}
    {names : List String} {held : String → Option Value} {es : Entries Value} (hn : names.Nodup)
    (hd : Entries.distinct (es.map (·.1)) = true)
    (hk : ∀ e ∈ es, ∃ name ∈ names, e.1 = .str name)
    (h : ∀ name ∈ names, Option.Rel (R (.str name)) (held name)
      ((es.field? name).bind (change (.str name)))) :
    SameFields R (.map (Entries.tabulate names held)) (revise change (.map es)) := by
  refine ⟨_, _, _, rfl, rfl, ?_, .tabulate h⟩
  rw [← Entries.revise_tabulate]
  exact (Entries.perm_tabulate hn hd hk).filterMap _

/-- Things written under their names, in their order, are the same as the revised entries of a
mapping if they are so one by one. -/
theorem exists_sameEntries_revise {α : Type} {R : Value → Value → Prop} {normal : Value → Value}
    {name : α → String} {write : α → Except Fault Value} {xs : List α} {es : Entries Value}
    (h : List.Forall₂ (fun x e => e.1 = .str (name x) ∧
      ∃ node, write x = .ok node ∧ R node (normal e.2)) xs es) :
    ∃ ns : Entries Value,
      List.Forall₂ (fun x n => n.1 = .str (name x) ∧ write x = .ok n.2) xs ns ∧
        SameEntries R (.map ns) (revise (fun _ v => some (normal v)) (.map es)) := by
  refine (?_ : ∃ ns : Entries Value, _ ∧ Entries.Pointwise R ns _).imp fun ns hns =>
    ⟨hns.1, ns, _, rfl, rfl, hns.2⟩
  induction h with
  | nil => exact ⟨[], .nil, .nil⟩
  | @cons x e rest more hx _ ih =>
    obtain ⟨hk, node, hn, hR⟩ := hx
    obtain ⟨ns, hns, hp⟩ := ih
    exact ⟨(e.1, node) :: ns, .cons ⟨hk, hn⟩ hns, .cons ⟨rfl, hR⟩ hp⟩

end Value

end ServiceModel
