import ServiceModel.Proofs.Shape.MemberMaps
import ServiceModel.Shape.Parse

/-!
# Places that are read by name

A reader faults only where a pair list stands at a place that is read by name. What follows says
which places of a definition these are, kind by kind, and that in a decoded tree a reader ends
exactly if all of them open.
-/
namespace ServiceModel

/-! The places of a definition that are read by name. -/

namespace Readable
open Value (Opens)

def traits (es : Entries Value) : Prop := ∀ t, es.field? "traits" = some t → t.Opens

def member (value : Value) : Prop :=
  value.Opens ∧ ∀ es, value.entries? = .ok (some es) → traits es

def references (value : Value) : Prop :=
  ∀ items, value = .list items ∨ value = .tuple items ∨ value = .pairs items →
    ∀ item ∈ items, item.Opens

def referenceMap (value : Value) : Prop :=
  value.Opens ∧ ∀ es, value.entries? = .ok (some es) → ∀ e ∈ es, e.1.IsText → e.2.Opens

def memberMap (value : Value) : Prop := ∀ es, value.Lists es → ∀ e ∈ es, member e.2

def content : ContentKind → Value → Prop
  | .text => fun _ => True
  | .reference => Opens
  | .member => member
  | .references => references
  | .referenceMap => referenceMap
  | .memberMap _ => memberMap
  | .traitMap => Opens
  | .identifierMap => Opens

structure Fields (type : ShapeType) (es : Entries Value) : Prop where
  mixins : type.allowsMixins = true → ∀ v, es.field? "mixins" = some v → references v
  contents : ∀ f ∈ type.fields, ∀ v, es.field? f.name = some v → content f.kind v

def definition (node : Value) : Prop :=
  node.Opens ∧ ∀ type es, Shape.classify node = .ok (.ok (type, es)) → Fields type es

end Readable

namespace Reading
open Traced

theorem token_ends (rule : Rule) (value : Value) : (token rule value).Ends := by
  unfold token
  split
  · exact ends_pure _
  · exact ends_bind (ends_emit _) fun _ _ => ends_pure _

theorem tokenOfText_ends (rule : Rule) (value : Value) : (tokenOfText rule value).Ends := by
  unfold tokenOfText
  split
  · exact token_ends rule _
  · exact ends_pure _

/-- A reader of entries ends if the value opens and the reading of its entries ends. -/
theorem entries_ends_iff {α : Type} {value : Value} {f : Option (Entries Value) → Reading α}
    (hnone : (f none).Ends) : (lift value.entries? >>= f).Ends ↔
      value.Opens ∧ ∀ es, value.entries? = .ok (some es) → (f (some es)).Ends := by
  rw [ends_bind_iff]
  constructor
  · rintro ⟨found, hf, h⟩
    have hf : value.entries? = .ok found := hf
    refine ⟨⟨found, hf⟩, fun es he => ?_⟩
    obtain rfl := Except.ok.inj (he.symm.trans hf)
    exact h
  · rintro ⟨⟨found, hf⟩, h⟩
    refine ⟨found, hf, ?_⟩
    cases found with
    | none => exact hnone
    | some es => exact h es hf

theorem reference_ends_iff {value : Value} : (reference value).Ends ↔ value.Opens := by
  refine (entries_ends_iff ?_).trans (and_iff_left fun es _ => ends_bind ?_ fun _ _ => ends_pure _)
  · exact ends_pure none
  · exact ends_relabel_iff.mpr (tokenOfText_ends _ _)

theorem memberTrait_ends (key : Key) {value : Value} (hw : value.isWellFormed = true) :
    (memberTrait key value).Ends := by
  refine ends_bind (ends_relabel_iff.mpr (token_ends _ _)) fun id _ => ?_
  cases id with
  | none => exact ends_pure _
  | some id =>
    obtain ⟨p, hp⟩ := Value.exists_hasPlain_of_isWellFormed hw
    obtain ⟨f, hf, -⟩ := Value.exists_hasFixed (Value.isPlain_of_hasPlain hp)
    exact ends_bind_iff.mpr ⟨p, hp, ends_bind_iff.mpr ⟨f, hf, ends_pure _⟩⟩

theorem memberTraits_ends_iff {es : Entries Value} (hw : ∀ e ∈ es, e.2.isWellFormed = true) :
    (memberTraits es).Ends ↔ Readable.traits es := by
  unfold memberTraits Readable.traits
  rw [ends_bind_iff]
  constructor
  · rintro ⟨raw, hraw, -⟩ t ht
    rw [ht] at hraw
    exact ⟨raw, hraw⟩
  · intro h
    cases ht : es.field? "traits" with
    | none => exact ⟨some [], rfl, ends_bind (ends_pure _) fun _ _ => ends_pure _⟩
    | some t =>
      obtain ⟨raw, hraw⟩ := h t ht
      refine ⟨raw, hraw, ends_bind (ends_each_iff.mpr fun e he => ?_) fun _ _ => ends_pure _⟩
      cases raw with
      | none => cases he
      | some ts =>
        have well := Value.isWellFormed_of_entries? (hw _ (Entries.mem_of_field? ht)) hraw
        exact memberTrait_ends e.1 (well e he)

theorem member_ends_iff {value : Value} (hw : value.isWellFormed = true) :
    (member value).Ends ↔ Readable.member value := by
  constructor
  · intro h
    obtain ⟨r, -, h⟩ := ends_bind_iff.mp h
    rw [entries_ends_iff (by exact ends_pure none)] at h
    obtain ⟨hopens, hes⟩ := h
    refine ⟨hopens, fun es he => ?_⟩
    rw [← memberTraits_ends_iff (Value.isWellFormed_of_entries? hw he)]
    obtain ⟨traits, ht, -⟩ := ends_bind_iff.mp (hes es he)
    exact ⟨traits, ht⟩
  · rintro ⟨hopens, hes⟩
    refine ends_bind (reference_ends_iff.mpr hopens) fun r _ => ?_
    refine (entries_ends_iff ?_).mpr ⟨hopens, fun es he => ?_⟩
    · exact ends_pure none
    have traits := (memberTraits_ends_iff (Value.isWellFormed_of_entries? hw he)).mpr (hes es he)
    exact ends_bind traits fun _ _ => ends_pure _

theorem references_ends_iff {value : Value} :
    (references value).Ends ↔ Readable.references value := by
  have each : ∀ items : List Value, (some <$> Traced.each (fun item : Value × Nat =>
      within [.int item.2] (reference item.1)) items.zipIdx).Ends ↔ ∀ item ∈ items, item.Opens := by
    intro items
    rw [ends_map_iff, ends_each_iff]
    conv_rhs => rw [← List.zipIdx_map_fst 0 items, List.forall_mem_map]
    exact forall₂_congr fun item _ => reference_ends_iff
  unfold Readable.references
  cases value with
  | list items => simpa [references] using each items
  | tuple items => simpa [references] using each items
  | pairs items => simpa [references] using each items
  | scalar s => exact ⟨fun _ => by simp, fun _ => ends_pure none⟩
  | map es => exact ⟨fun _ => by simp, fun _ => ends_pure none⟩
  | frozen es => exact ⟨fun _ => by simp, fun _ => ends_pure none⟩

theorem mapping_ends_iff {α : Type} (entry : Key → Value → Reading (Option α)) {value : Value} :
    (mapping entry value).Ends ↔ value.Opens ∧
      ∀ es, value.entries? = .ok (some es) → ∀ e ∈ es, (entry e.1 e.2).Ends := by
  refine (entries_ends_iff ?_).trans (and_congr_right fun _ => forall₂_congr fun es _ => ?_)
  · exact ends_pure none
  · dsimp only
    rw [bind_pure_comp, ends_map_iff, ends_each_iff]

theorem referenceMap_ends_iff {value : Value} :
    (referenceMap value).Ends ↔ Readable.referenceMap value := by
  refine (mapping_ends_iff referenceEntry).trans
    (and_congr_right fun _ => forall₂_congr fun es _ => forall₂_congr fun e _ => ?_)
  obtain ⟨key, v⟩ := e
  by_cases ht : key.IsText
  · obtain ⟨name, rfl⟩ := ht
    refine (ends_map_iff (f := fun found => some (name, found))).trans (reference_ends_iff.trans ?_)
    exact ⟨fun h _ => h, fun h => h ⟨name, rfl⟩⟩
  · refine iff_of_true ?_ fun h => absurd h ht
    unfold referenceEntry
    dsimp only
    split
    · exact absurd ⟨_, rfl⟩ ht
    · exact ends_bind (ends_emit _) fun _ _ => ends_pure _

theorem traitMap_ends_iff {value : Value} (hw : value.isWellFormed = true) :
    (traitMap value).Ends ↔ value.Opens := by
  refine (mapping_ends_iff traitEntry).trans (and_iff_left fun es he e hm => ?_)
  refine ends_bind (ends_relabel_iff.mpr (token_ends _ _)) fun id _ => ?_
  cases id with
  | none => exact ends_pure _
  | some id =>
    obtain ⟨p, hp⟩ := Value.exists_hasPlain_of_isWellFormed
      (Value.isWellFormed_of_entries? hw he e hm)
    exact ends_bind_iff.mpr ⟨p, hp, ends_pure _⟩

theorem identifierMap_ends_iff {value : Value} : (identifierMap value).Ends ↔ value.Opens := by
  refine (mapping_ends_iff identifierEntry).trans (and_iff_left fun es _ e _ => ?_)
  refine ends_bind (ends_relabel_iff.mpr (token_ends _ _)) fun id _ => ?_
  refine ends_bind (ends_relabel_iff.mpr (tokenOfText_ends _ _)) fun name _ => ?_
  cases id <;> cases name <;> exact ends_pure _

theorem memberName_ends (key : Key) : (memberName key.toValue).Ends := by
  unfold memberName
  split
  · exact ends_pure _
  · exact ends_bind_iff.mpr ⟨key, Value.key_toValue key, ends_pure _⟩

theorem memberEntry_ends_iff {e : Key × Value} (hw : e.2.isWellFormed = true) :
    (memberEntry e.1.toValue e.2).Ends ↔ Readable.member e.2 := by
  rw [← member_ends_iff hw]
  constructor
  · intro h
    obtain ⟨m, hm, -⟩ := ends_bind_iff.mp h
    exact ⟨m, hm⟩
  · exact fun h => ends_bind (ends_relabel_iff.mpr h) fun _ _ =>
      ends_bind (memberName_ends e.1) fun _ _ => ends_pure _

theorem memberMap_ends_iff {policy : NamingPolicy} {value : Value}
    (hw : value.isWellFormed = true) :
    (memberMap policy value).Ends ↔ Readable.memberMap value := by
  cases hentries : value.hasEntries with
  | false =>
    rw [memberMap_of_not_hasEntries hentries]
    refine iff_of_true (ends_pure none) fun es hl => ?_
    rw [hl.hasEntries] at hentries
    cases hentries
  | true =>
    obtain ⟨es, hl⟩ := Value.exists_lists_of_isWellFormed hw hentries
    have well := hl.isWellFormed hw
    have each : (Traced.each (fun e : Key × Value => memberEntry e.1.toValue e.2) es).Ends ↔
        ∀ e ∈ es, Readable.member e.2 := by
      rw [ends_each_iff]
      exact forall₂_congr fun e he => memberEntry_ends_iff (well e he)
    rw [memberMap_of_lists hl]
    constructor
    · intro h es' hl'
      obtain rfl := hl'.unique hl
      obtain ⟨-, -, h⟩ := ends_bind_iff.mp h
      obtain ⟨found, hfound, -⟩ := ends_bind_iff.mp h
      exact each.mp ⟨found, hfound⟩
    · intro h
      exact ends_bind (ends_emit _) fun _ _ => ends_bind (each.mpr (h es hl)) fun _ _ => ends_pure _

theorem content_ends_iff {kind : ContentKind} {value : Value} (hw : value.isWellFormed = true) :
    (content kind value).Ends ↔ Readable.content kind value := by
  cases kind with
  | text => exact ⟨fun _ => trivial, fun _ => ends_pure _⟩
  | reference => exact ends_map_iff.trans reference_ends_iff
  | member => exact ends_map_iff.trans (member_ends_iff hw)
  | references => exact ends_map_iff.trans references_ends_iff
  | referenceMap => exact ends_map_iff.trans referenceMap_ends_iff
  | memberMap policy => exact ends_map_iff.trans (memberMap_ends_iff hw)
  | traitMap => exact ends_map_iff.trans (traitMap_ends_iff hw)
  | identifierMap => exact ends_map_iff.trans identifierMap_ends_iff

end Reading

end ServiceModel
