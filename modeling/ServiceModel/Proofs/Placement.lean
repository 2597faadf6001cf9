import ServiceModel.Proofs.Document.Verdicts
import ServiceModel.Proofs.Shape.Ends
import ServiceModel.Proofs.Shape.Language

/-!
# The places of pair lists

A decoder may put a pair list for the document, for its shapes, for the members of a shape, and
anywhere inside metadata and inside the values of traits. None of these places is read by name, so
every definition of such a document is parsed to the end.
-/
namespace ServiceModel

/-! Where pair lists stand. -/

namespace Placed

/-- The traits of a shape or of a member: their values can be anything. -/
def traits (value : Value) : Prop := value.isPairFree = true ∨ ∃ ts, value.IsMapping ts

def member (value : Value) : Prop :=
  value.isPairFree = true ∨ ∃ es, value.IsMapping es ∧
    ∀ e ∈ es, e.2.isPairFree = true ∨ (e.1 = .str "traits" ∧ traits e.2)

def members (value : Value) : Prop :=
  value.isPairFree = true ∨ ∃ es, value.Lists es ∧ ∀ e ∈ es, member e.2

/-- What the field of a definition can hold. -/
def field (key : Key) (value : Value) : Prop :=
  value.isPairFree = true ∨ (key = .str "traits" ∧ traits value) ∨
    (key = .str "member" ∧ member value) ∨ (key = .str "members" ∧ members value)

def definition (node : Value) : Prop :=
  node.isPairFree = true ∨ ∃ es, node.IsMapping es ∧ ∀ e ∈ es, field e.1 e.2

def shapes (value : Value) : Prop :=
  value.isPairFree = true ∨ ∃ es, value.Lists es ∧ ∀ e ∈ es, definition e.2

def document (value : Value) : Prop :=
  value.isPairFree = true ∨ ∃ es, value.Lists es ∧
    ∀ e ∈ es, e.2.isPairFree = true ∨ e.1 = .str "metadata" ∨ (e.1 = .str "shapes" ∧ shapes e.2)

end Placed

/-! Without pair lists every place opens. -/

namespace Value

theorem opens_of_isPairFree {value : Value} (h : value.isPairFree = true) : value.Opens := by
  cases value with
  | pairs items => cases h
  | _ => exact ⟨_, rfl⟩

theorem IsMapping.unique {value : Value} {es fs : Entries Value} (h : value.IsMapping es)
    (h' : value.Maps fs) : es = fs :=
  h.maps.lists.unique h'.lists

theorem IsMapping.of_entries? {value : Value} {es fs : Entries Value} (h : value.IsMapping es)
    (h' : value.entries? = .ok (some fs)) : fs = es :=
  Option.some.inj (Except.ok.inj (h'.symm.trans h.maps.entries?_eq))

/-- The entries of a mapping without pair lists have none. -/
theorem isPairFree_of_entries? {value : Value} {es : Entries Value}
    (hv : value.isPairFree = true) (h : value.entries? = .ok (some es)) :
    ∀ e ∈ es, e.2.isPairFree = true := by
  rcases entries?_eq_ok_some_iff.mp h with rfl | rfl | ⟨items, rfl, -⟩
  · exact (IsMapping.isPairFree (.inl rfl)) hv
  · exact (IsMapping.isPairFree (.inr rfl)) hv
  · cases hv

end Value

namespace Readable
open Value
variable {value : Value}

theorem traits_of_isPairFree {es : Entries Value} (h : ∀ e ∈ es, e.2.isPairFree = true) :
    traits es :=
  fun _ ht => opens_of_isPairFree (h _ (Entries.mem_of_field? ht))

theorem member_of_isPairFree (hv : value.isPairFree = true) : member value :=
  ⟨opens_of_isPairFree hv, fun _ he => traits_of_isPairFree (isPairFree_of_entries? hv he)⟩

theorem references_of_isPairFree (hv : value.isPairFree = true) : references value := by
  rintro items (rfl | rfl | rfl) item hi
  · exact opens_of_isPairFree (isPairFree_of_items (.list items) hv item hi)
  · exact opens_of_isPairFree (isPairFree_of_items (.tuple items) hv item hi)
  · cases hv

theorem content_of_isPairFree (kind : ContentKind) (hv : value.isPairFree = true) :
    content kind value := by
  have opens := opens_of_isPairFree hv
  cases kind with
  | text => trivial
  | reference => exact opens
  | member => exact member_of_isPairFree hv
  | references => exact references_of_isPairFree hv
  | referenceMap =>
    exact ⟨opens, fun es he e hm _ => opens_of_isPairFree (isPairFree_of_entries? hv he e hm)⟩
  | memberMap _ =>
    exact fun es hl e he => member_of_isPairFree ((IsMapping.of_lists hv hl).isPairFree hv e he)
  | traitMap => exact opens
  | identifierMap => exact opens

/-! Where pair lists keep to their places, every place that is read by name opens. -/

theorem opens_of_placed (h : Placed.traits value) : value.Opens := by
  rcases h with hv | ⟨ts, hm⟩
  · exact opens_of_isPairFree hv
  · exact hm.maps.opens

theorem member_of_placed (h : Placed.member value) : member value := by
  rcases h with hv | ⟨es, hm, he⟩
  · exact member_of_isPairFree hv
  refine ⟨hm.maps.opens, fun fs hf t ht => ?_⟩
  obtain rfl := hm.of_entries? hf
  rcases he _ (Entries.mem_of_field? ht) with hv | ⟨-, hts⟩
  · exact opens_of_isPairFree hv
  · exact opens_of_placed hts

theorem memberMap_of_placed (h : Placed.members value) : memberMap value := by
  rcases h with hv | ⟨es, hl, he⟩
  · exact content_of_isPairFree (.memberMap ⟨false, false⟩) hv
  · intro fs hf e hm
    obtain rfl := hl.unique hf
    exact member_of_placed (he e hm)

/-- The kinds of the fields that can hold pair lists. -/
theorem kind_of_name {type : ShapeType} : ∀ f ∈ type.fields,
    (f.name = "traits" → f.kind = .traitMap ∨ f.kind = .identifierMap) ∧
    (f.name = "member" → f.kind = .member) ∧
    (f.name = "members" → ∃ policy, f.kind = .memberMap policy) := by
  cases type <;> simp [ShapeType.fields, Field.needed, Field.optional]

theorem fields_of_placed {type : ShapeType} {es : Entries Value}
    (h : ∀ e ∈ es, Placed.field e.1 e.2) : Fields type es := by
  refine ⟨fun _ v hv => ?_, fun f hf v hv => ?_⟩
  · rcases h _ (Entries.mem_of_field? hv) with hv | ⟨hk, -⟩ | ⟨hk, -⟩ | ⟨hk, -⟩
    · exact references_of_isPairFree hv
    · simp at hk
    · simp at hk
    · simp at hk
  · obtain ⟨htraits, hmember, hmembers⟩ := kind_of_name f hf
    rcases h _ (Entries.mem_of_field? hv) with hv | ⟨hk, hp⟩ | ⟨hk, hp⟩ | ⟨hk, hp⟩
    · exact content_of_isPairFree f.kind hv
    · rcases htraits (by simpa using hk) with hkind | hkind <;> rw [hkind] <;>
        exact opens_of_placed hp
    · rw [hmember (by simpa using hk)]
      exact member_of_placed hp
    · obtain ⟨policy, hkind⟩ := hmembers (by simpa using hk)
      rw [hkind]
      exact memberMap_of_placed hp

theorem definition_of_placed {node : Value} (h : Placed.definition node) : definition node := by
  rcases h with hv | ⟨es, hm, he⟩
  · refine ⟨opens_of_isPairFree hv, fun type es hc => ?_⟩
    obtain ⟨hm, -⟩ := Shape.classify_eq_ok_iff.mp hc
    exact fields_of_placed fun e he => .inl ((IsMapping.of_maps hv hm).isPairFree hv e he)
  · refine ⟨hm.maps.opens, fun type fs hc => ?_⟩
    obtain rfl := hm.unique (Shape.classify_eq_ok_iff.mp hc).1
    exact fields_of_placed he

end Readable

namespace Validation

theorem placed_of_looksAt {document : Value} {definitions : Entries Value}
    (h : Placed.document document) (hl : LooksAt document definitions) :
    ∀ e ∈ definitions, Placed.definition e.2 := by
  obtain ⟨fields, hf, hd, -⟩ := hl
  have shapes : ∀ v, (.str "shapes", v) ∈ fields → Placed.shapes v := by
    intro v hv
    rcases h with hdocument | ⟨es, hes, he⟩
    · exact .inl ((Value.IsMapping.of_lists hdocument hf).isPairFree hdocument _ hv)
    · obtain rfl := hes.unique hf
      rcases he _ hv with hv | hk | ⟨-, hs⟩
      · exact .inl hv
      · simp at hk
      · exact hs
  cases hs : (Entries.ofList fields).field? "shapes" with
  | none =>
    rw [hs] at hd
    cases hd
    simp
  | some v =>
    rw [hs] at hd
    rcases shapes v (Entries.mem_of_field?_ofList hs) with hv | ⟨es, hes, he⟩
    · exact fun e he => .inl ((Value.IsMapping.of_lists hv hd).isPairFree hv e he)
    · obtain rfl := hes.unique hd
      exact he

/-- What holds at every node of a document holds at every node of its definitions. -/
theorem everyNode_of_looksAt {test : Value → Bool} (scalar : ∀ s, test (.scalar s) = true)
    (tuple : ∀ items, test (.tuple items) = true) {document : Value} {definitions : Entries Value}
    (h : document.everyNode test = true) (hl : LooksAt document definitions) :
    ∀ e ∈ definitions, e.2.everyNode test = true := by
  obtain ⟨fields, hf, hd, -⟩ := hl
  cases hs : (Entries.ofList fields).field? "shapes" with
  | none =>
    rw [hs] at hd
    cases hd
    simp
  | some v =>
    rw [hs] at hd
    have hv := hf.everyNode_ofList scalar tuple h _ (Entries.mem_of_field? hs)
    exact hd.everyNode scalar tuple hv

theorem isWellFormed_of_looksAt {document : Value} {definitions : Entries Value}
    (hw : document.isWellFormed = true) (hl : LooksAt document definitions) :
    ∀ e ∈ definitions, e.2.isWellFormed = true :=
  everyNode_of_looksAt (fun _ => rfl) (fun _ => rfl) hw hl

theorem place_keys (e : Key × Value) : ∀ token ∈ place e, ∃ key : Key, token = key.toValue := by
  intro token ht
  rcases List.mem_pair.mp ht with rfl | rfl
  · exact ⟨.str "shapes", rfl⟩
  · exact ⟨.str e.1.text, rfl⟩

/-- No definition faults exactly if each place that is read by name opens. -/
theorem eachParses_iff [Visiting] {document : Value} (hw : document.isWellFormed = true) :
    EachParses document ↔
      ∀ definitions, LooksAt document definitions → ∀ e ∈ definitions, Readable.definition e.2 :=
  forall₂_congr fun _ hl => forall₂_congr fun e he =>
    Shape.parse_ends_iff (isWellFormed_of_looksAt hw hl e he) (place_keys e)

theorem eachParses_of_placed [Visiting] {document : Value} (hw : document.isWellFormed = true)
    (hp : Placed.document document) : EachParses document :=
  (eachParses_iff hw).mpr fun _ hl e he =>
    Readable.definition_of_placed (placed_of_looksAt hp hl e he)

end Validation

end ServiceModel
