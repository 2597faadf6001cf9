import ServiceModel.Proofs.Limits
import ServiceModel.Proofs.Shape.Cited
import ServiceModel.Shape.Limited

/-!
# Definitions that are parsed within limits

All that is written and walked through while a definition is parsed is read from the definition,
its path apart. So if the limits allow both, the parsing does not exceed them.
-/
namespace ServiceModel

namespace Finding

theorem written_subset (finding : Finding) : finding.written ⊆ finding.cited := by
  cases finding <;> simp [written, cited]

theorem write_written {limits : Limits} {findings : List Finding}
    (h : ∀ finding ∈ findings, finding.Cites fun value => limits.allows value = true) :
    (findings.flatMap written).forM limits.write = .ok () := by
  refine Fault.forM_eq_ok_iff.mpr fun value hv => ?_
  obtain ⟨finding, hf, hv⟩ := List.mem_flatMap.mp hv
  exact Limits.write_of_allows (h finding hf value (finding.written_subset hv))

end Finding

section
open Value
variable {P : Value → Prop} (ht : Value.Inherited P) {value : Value}
include ht

theorem Value.fieldsRead_each (h : P value) : value.fieldsRead.Each P := by
  unfold fieldsRead
  split
  · rename_i es he
    exact ht.map (ht.entries h he)
  · exact fun _ he => nomatch he

theorem Value.entriesRead_each (h : P value) : ∀ e ∈ value.entriesRead, P e.1 ∧ P e.2 := by
  unfold entriesRead
  split
  · rename_i es hs
    cases hi : value.items? with
    | none =>
      rw [hi] at hs
      obtain rfl := Except.ok.inj hs
      exact fun _ he => nomatch he
    | some items =>
      rw [hi] at hs
      exact ht.split h hi hs
  · exact fun _ he => nomatch he

theorem Value.of_mem_keysRead (h : P value) : ∀ key ∈ value.keysRead, P key :=
  List.forall_mem_map.mpr fun e he => (fieldsRead_each ht h e he).1

theorem Value.of_mem_traitKeys (h : P value) : ∀ key ∈ value.traitKeys, P key :=
  of_mem_keysRead ht ((fieldsRead_each ht h).field_getD "traits" ht.empty)

theorem ContentKind.of_mem_keys (kind : ContentKind) (h : P value) :
    ∀ key ∈ kind.keys value, P key := by
  cases kind with
  | text | reference | references => exact fun _ hk => nomatch hk
  | member => exact of_mem_traitKeys ht h
  | memberMap _ =>
    intro key hk
    obtain ⟨e, he, hk⟩ := List.mem_flatMap.mp hk
    obtain ⟨hkey, hvalue⟩ := entriesRead_each ht h e he
    rcases List.mem_cons.mp hk with rfl | hk
    · exact hkey
    · exact of_mem_traitKeys ht hvalue key hk
  | referenceMap | traitMap | identifierMap => exact of_mem_keysRead ht h

theorem ShapeType.of_mem_keys (type : ShapeType) {es : Entries Value} (h : es.Each P) :
    ∀ key ∈ type.keys es, P key := by
  intro key hk
  obtain ⟨field, -, hk⟩ := List.mem_flatMap.mp hk
  cases hf : es.field? field.name with
  | none =>
    rw [hf] at hk
    cases hk
  | some v =>
    rw [hf] at hk
    exact field.kind.of_mem_keys ht (h.field? hf) key hk

end

section
variable [Visiting] {limits : Limits} {node : Value} {path : Path}

theorem ShapeType.effort_of_allows {type : ShapeType} {es : Entries Value}
    (h : limits.allows (.map es) = true) {plain : Value} (hp : (Value.map es).HasPlain plain) :
    type.effort limits es = .ok () := by
  have ht := Limits.inherited_allows h
  have cited : ∀ c ∈ type.complaints plain, c.finding.Cites fun v => limits.allows v = true := by
    intro c hc
    exact Check.ofShapeType_cites ht type plain (ht.plain h hp) c (type.complaints_subset _ hc)
  have written := Finding.write_written (List.forall_mem_map.mpr cited)
  rw [List.flatMap_map] at written
  have keys : (type.keys es).forM limits.write = .ok () := Fault.forM_eq_ok_iff.mpr fun key hk =>
    Limits.write_of_allows (type.of_mem_keys ht (ht.map h) key hk)
  have hp : (Value.map es).toPlain = .ok plain := hp
  rw [effort, Limits.walk_of_allows h, Fault.ok_bind, hp, Fault.ok_bind, written, Fault.ok_bind,
    keys]

namespace Shape

/-- Where the parsing ends, limits that allow the definition do not end it earlier. -/
theorem effort_of_allows (hn : limits.allows node = true)
    (hpath : limits.write (.tuple path) = .ok ()) (ends : (parse node path).Ends) :
    effort limits node path = .ok () := by
  have ht := Limits.inherited_allows hn
  obtain ⟨found, hc, ends⟩ := Traced.ends_bind_iff.mp ends
  have hc : classify node = .ok found := hc
  rw [effort, hc, Fault.ok_bind]
  cases found with
  | error issue =>
    refine Fault.forM_eq_ok_iff.mpr fun value hv => Limits.write_of_allows ?_
    exact (Value.fieldsRead_each ht hn).field? (Option.mem_toList.mp hv)
  | ok found =>
    obtain ⟨type, es⟩ := found
    obtain ⟨plain, hp, -⟩ := Traced.ends_bind_iff.mp ends
    have entries := ht.entries hn (classify_eq_ok_iff.mp hc).1.entries?_eq
    dsimp only
    rw [hpath, Fault.ok_bind]
    exact ShapeType.effort_of_allows entries hp

theorem parseLimited_of_allows (hn : limits.allows node = true)
    (hpath : limits.write (.tuple path) = .ok ()) (ends : (parse node path).Ends) :
    parseLimited limits node path = parse node path := by
  rw [parseLimited, effort_of_allows hn hpath ends, Traced.lift_ok, pure_bind]

end Shape

end

end ServiceModel
