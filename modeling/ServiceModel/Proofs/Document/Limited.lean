import ServiceModel.Document.Limited
import ServiceModel.Proofs.Document.Endings
import ServiceModel.Proofs.Document.Verdicts
import ServiceModel.Proofs.Shape.Limited

/-!
# Documents that are validated within limits

All that is written and walked through while a document is validated is read from the document, the
number of workers apart. So if the limits allow both, the validation does not exceed them, whatever
the mode and the order in which workers come in.
-/
namespace ServiceModel

theorem Definitions.write_repeats {limits : Limits} {definitions : Entries Value}
    (h : definitions.Each fun value => limits.allows value = true) (path : Path) :
    ((repeats definitions path).filterMap (·.values.head?)).forM limits.write = .ok () := by
  refine Fault.forM_eq_ok_iff.mpr fun value hv => ?_
  obtain ⟨issue, hi, hv⟩ := List.mem_filterMap.mp hv
  obtain ⟨e, he, rfl⟩ := List.mem_map.mp hi
  obtain rfl := Option.some.inj hv
  exact Limits.write_of_allows (h e (Entries.firsts_subset definitions (List.mem_filter.mp he).1)).1

section
variable [Visiting] {limits : Limits}

theorem Envelope.effort_of_allows {document : Entries Value}
    (ht : Value.Inherited fun value => limits.allows value = true)
    (h : document.Each fun value => limits.allows value = true)
    (hw : ∀ e ∈ document, e.2.isWellFormed = true) : effort limits document = .ok () := by
  obtain ⟨issues, hi⟩ := exists_issues hw
  obtain ⟨found, hc, -⟩ := Fault.bind_eq_ok_iff.mp hi
  have walked : (document.forM fun e =>
      if e.1.same (.str "shapes") && e.2.hasEntries then .ok () else limits.walk e.2) = .ok () := by
    refine Fault.forM_eq_ok_iff.mpr fun e he => ?_
    split
    · rfl
    · exact Limits.walk_of_allows (h e he).2
  have written := Finding.write_written (List.forall_mem_map.mpr (complaints_cite ht h hc))
  rw [List.flatMap_map] at written
  rw [effort, walked, Fault.ok_bind, hc, Fault.ok_bind, written]

namespace Validation
variable {settings : Settings} {arrival : Schedule}

theorem lookedAt_subset (entries : Entries Value) :
    lookedAt settings arrival entries ⊆ entries := by
  refine List.Subset.trans (List.take_subset _ _) ?_
  split
  · intro e he
    obtain ⟨position, -, he⟩ := List.mem_filterMap.mp he
    exact List.mem_of_getElem? he
  · exact List.Subset.refl _

theorem entryEffort_of_allows {e : Key × Value} (hk : limits.allows e.1.toValue = true)
    (hv : limits.allows e.2 = true) (ends : (Shape.parse e.2 (place e)).Ends) :
    entryEffort limits e = .ok () := by
  rw [entryEffort, Limits.write_of_allows hk, Fault.ok_bind]
  exact Shape.effort_of_allows hv (Limits.write_texts hv ["shapes", e.1.text]) ends

theorem fieldsEffort_of_allows {document : Entries Value}
    (ht : Value.Inherited fun value => limits.allows value = true)
    (h : document.Each fun value => limits.allows value = true)
    (hworkers : limits.write (.int settings.maxWorkers) = .ok ())
    (hw : ∀ e ∈ document, e.2.isWellFormed = true)
    (hparse : ∀ definitions, ((document.field? "shapes").getD (.map [])).Lists definitions →
      Entries.distinct (definitions.map (·.1)) = true → ∀ e ∈ definitions,
        ∃ found, (Shape.parse e.2 (place e)).outcome = .ok found) :
    fieldsEffort limits settings arrival document = .ok () := by
  rw [fieldsEffort, Envelope.effort_of_allows ht h hw, Fault.ok_bind]
  have raw := h.field_getD "shapes" ht.empty
  have rawWell : ((document.field? "shapes").getD (.map [])).isWellFormed = true := by
    cases hf : document.field? "shapes" with
    | none => rfl
    | some shapes => exact hw _ (Entries.mem_of_field? hf)
  generalize (document.field? "shapes").getD (.map []) = shapes at *
  dsimp only
  cases hentries : shapes.hasEntries with
  | false => rfl
  | true =>
    obtain ⟨definitions, hl⟩ := Value.exists_lists_of_isWellFormed rawWell hentries
    have allowed := ht.listed raw hl
    rw [Bool.not_true, if_neg Bool.false_ne_true, Definitions.collect_of_lists hl, Fault.ok_bind,
      Definitions.repeatedIssues_eq]
    dsimp only
    rw [Definitions.write_repeats allowed, Fault.ok_bind]
    split
    · rename_i hrepeats
      have distinct := (Definitions.repeats_eq_nil_iff shapesPath).mp (List.isEmpty_iff.mp hrepeats)
      rw [hworkers, Fault.ok_bind, Entries.ofList_of_distinct definitions distinct]
      refine Fault.forM_eq_ok_iff.mpr fun e he => ?_
      have he := lookedAt_subset definitions he
      exact entryEffort_of_allows (allowed e he).1 (allowed e he).2
        (hparse definitions hl distinct e he)
    · rfl

theorem effort_of_lists {document : Value} {listed : Entries Value} (h : document.Lists listed) :
    effort limits settings arrival document =
      fieldsEffort limits settings arrival (Entries.ofList listed) := by
  obtain ⟨items, hi, hk⟩ := Value.lists_iff.mp h
  rw [effort, hi]
  dsimp only
  rw [hk, Fault.ok_bind]

/-- Limits that allow the document and the number of workers do not end its validation. -/
theorem effort_of_allows {document : Value} (h : limits.allows document = true)
    (hworkers : limits.write (.int settings.maxWorkers) = .ok ())
    (hw : document.isWellFormed = true) (hparse : EachParses document) :
    effort limits settings arrival document = .ok () := by
  have ht := Limits.inherited_allows h
  cases hentries : document.hasEntries with
  | false =>
    rw [← Value.items?_isSome, Option.isSome_eq_false_iff, Option.isNone_iff_eq_none] at hentries
    rw [effort, hentries]
    rfl
  | true =>
    obtain ⟨listed, hl⟩ := Value.exists_lists_of_isWellFormed hw hentries
    rw [effort_of_lists hl]
    exact fieldsEffort_of_allows ht (ht.listed h hl).ofList hworkers (hl.isWellFormed_ofList hw)
      fun definitions hd hdistinct => hparse definitions ⟨listed, hl, hd, hdistinct⟩

end Validation

theorem validateLimited_of_allows {document : Value} (h : limits.allows document = true)
    {settings : Settings} (hworkers : limits.write (.int settings.maxWorkers) = .ok ())
    (hw : document.isWellFormed = true) (hparse : Validation.EachParses document)
    (arrival : Schedule) :
    validateLimited limits arrival settings document = validateWith arrival settings document := by
  rw [validateLimited, Validation.effort_of_allows h hworkers hw hparse, Traced.lift_ok, pure_bind]

end

end ServiceModel
