import ServiceModel.Proofs.Document.Collapse

/-!
# Repeated keys, of which the last counts

A decoder that finds a key twice makes a pair list; one that lets the last entry win would have made
the plain form. With repeated keys in the document, in metadata and inside the values of traits the
two are judged alike. Where a pair list stands at a place of a definition that is read by name, the
run faults, while the plain form has a verdict.
-/
namespace ServiceModel

namespace Validation
open Value

/-- No shape id is repeated, and no member name. -/
structure NamesOnce (document : Value) : Prop where
  ids : ∀ fields, document.Lists fields → ∀ shapes,
    (Entries.ofList fields).field? "shapes" = some shapes → shapes.RepeatsNoKey
  members : ∀ definitions, LooksAt document definitions → ∀ e ∈ definitions, ∀ type es,
    Shape.classify e.2 = .ok (.ok (type, es)) → Shape.NamesOnce type es

/-- The places of the definitions that are read by name open: of the pair lists only an empty one
stands there. -/
def EachReadable (document : Value) : Prop :=
  ∀ definitions, LooksAt document definitions → ∀ e ∈ definitions, Readable.definition e.2

theorem LooksAt.exists_plain {document plain : Value} {definitions : Entries Value}
    (hw : document.isWellFormed = true) (hp : document.HasPlain plain)
    (h : LooksAt document definitions) :
    ∃ plains, LooksAt plain plains ∧ Entries.Pointwise HasPlain definitions plains := by
  obtain ⟨fields, hl, hd, hdistinct⟩ := h
  obtain ⟨ps, rfl, -⟩ := hl.exists_plain_ofList hw hp
  have hq := hl.pointwise_ofList hw hp (.map ps)
  obtain ⟨plains, hplains, hmap⟩ :=
    (hd.hasPlain_iff hdistinct).mp (hasPlain_field hq "shapes" (.map []) rfl)
  exact ⟨plains, ⟨ps, .map ps, hmap ▸ .map plains, hplains.keys ▸ hdistinct⟩, hplains⟩

section
variable {document plain : Value} (hd : document.isDecoded = true) (hp : document.HasPlain plain)
include hd hp

section
variable [Visiting]

theorem eachParses_of_plain : EachParses plain :=
  eachParses_of_placed (isWellFormed_of_hasPlain (isWellFormed_of_isDecoded hd) hp)
    (.inl (isPairFree_of_isPlain (isPlain_of_hasPlain hp)))

theorem exists_alike_of_looksAt (once : NamesOnce document) (hr : EachReadable document)
    {definitions : Entries Value} (hl : LooksAt document definitions) (arrival : Schedule)
    (settings : Settings) : ∃ verdict other,
      (validateWith arrival settings document).outcome = .ok verdict ∧
      (validateWith arrival settings plain).outcome = .ok other ∧ verdict.Alike other := by
  have hw := isWellFormed_of_isDecoded hd
  have each := (eachParses_iff hw).mpr hr
  obtain ⟨plains, hlp, hq⟩ := hl.exists_plain hw hp
  obtain ⟨outcomes, ho⟩ := List.Forall₂.of_forall_exists fun e he =>
    exists_gives_iff.mpr (each definitions hl e he)
  obtain ⟨others, ho'⟩ := List.Forall₂.of_forall_exists fun e he =>
    exists_gives_iff.mpr (eachParses_of_plain hd hp plains hlp e he)
  have alike : List.Forall₂ Outcome.Alike outcomes others := by
    refine ho.across (hq.comp ho') ?_
    rintro e he o other hg ⟨q, ⟨hk, hplain⟩, hg'⟩
    have decoded := everyNode_of_looksAt (fun _ => rfl) (fun _ => rfl) hd hl e he
    obtain ⟨same, marks⟩ := Shape.parse_alike decoded hplain (hr definitions hl e he)
      (once.members definitions hl e he) (place_keys e)
    have hplace : place e = place q := by rw [place, place, hk]
    exact gives_alike hk (hplace ▸ same) (hplace ▸ marks) hg hg'
  obtain ⟨verdict, hv, -⟩ := exists_verdict hw each arrival settings
  obtain ⟨listed, hlist, hrun⟩ := outcome_of_looksAt hl
  obtain ⟨ps, hlist', hrun'⟩ := outcome_of_looksAt hlp
  have fields := hlist.pointwise_ofList hw hp hlist'
  obtain ⟨envelope, he⟩ := Envelope.exists_issues (hlist.isWellFormed_ofList hw)
  have hc := hv
  rw [hrun, he, shapes_outcome ho, Fault.ok_bind, Fault.ok_bind] at hc
  obtain ⟨other, hother, h⟩ := conclude_alike fields (counted_alike alike) hc
  refine ⟨verdict, other, hv, ?_, h⟩
  rw [hrun', ← Envelope.issues_congr fields, he, shapes_outcome ho', Fault.ok_bind, Fault.ok_bind]
  exact hother

/-- Where every place opens, the run ends, and the plain form is judged alike. -/
theorem exists_alike (once : NamesOnce document) (hr : EachReadable document)
    (arrival : Schedule) (settings : Settings) : ∃ verdict other,
      (validateWith arrival settings document).outcome = .ok verdict ∧
      (validateWith arrival settings plain).outcome = .ok other ∧ verdict.Alike other := by
  have hw := isWellFormed_of_isDecoded hd
  cases hentries : document.hasEntries with
  | false =>
    exact ⟨_, _, outcome_of_not_hasEntries hentries arrival settings,
      outcome_of_not_hasEntries (hp.hasEntries_eq ▸ hentries) arrival settings, rfl, rfl⟩
  | true =>
    obtain ⟨listed, hl⟩ := exists_lists_of_isWellFormed hw hentries
    obtain ⟨ps, rfl, -⟩ := hl.exists_plain_ofList hw hp
    have fields := hl.pointwise_ofList hw hp (.map ps)
    cases hraw : (((Entries.ofList listed).field? "shapes").getD (.map [])).hasEntries with
    | false =>
      have hplain := (hasPlain_field fields "shapes" (.map []) rfl).hasEntries_eq ▸ hraw
      obtain ⟨envelope, he⟩ := Envelope.exists_issues (hl.isWellFormed_ofList hw)
      refine ⟨⟨none, envelope⟩, ⟨none, envelope⟩, ?_, ?_, rfl, rfl⟩
      · rw [outcome_of_lists hl, fields_of_not_hasEntries hraw, he]
        rfl
      · rw [outcome_of_lists (.map ps), fields_of_not_hasEntries hplain,
          ← Envelope.issues_congr fields, he]
        rfl
    | true =>
      obtain ⟨definitions, hlooks⟩ : ∃ definitions, LooksAt document definitions := by
        cases hs : (Entries.ofList listed).field? "shapes" with
        | none => exact ⟨[], listed, hl, hs ▸ .map [], rfl⟩
        | some shapes =>
          rw [hs] at hraw
          have well := hl.isWellFormed_ofList hw _ (Entries.mem_of_field? hs)
          obtain ⟨definitions, hdef⟩ := exists_lists_of_isWellFormed well hraw
          exact ⟨definitions, listed, hl, hs ▸ hdef, once.ids listed hl shapes hs definitions hdef⟩
      exact exists_alike_of_looksAt hd hp once hr hlooks arrival settings

end

end

/-- A run that looks at every definition ends only if each can be read. -/
theorem eachReadable_of_verdict [Visiting] {document : Value} {verdict : Verdict}
    {settings : Settings} {arrival : Schedule} (hw : document.isWellFormed = true)
    (hf : settings.failFast = false)
    (hv : (validateWith arrival settings document).outcome = .ok verdict) :
    EachReadable document := by
  refine (eachParses_iff hw).mp fun definitions hl e he => ?_
  obtain ⟨listed, -, hrun⟩ := outcome_of_looksAt hl
  rw [hrun] at hv
  obtain ⟨envelope, -, hv⟩ := Fault.bind_eq_ok_iff.mp hv
  obtain ⟨outcomes, ho, -⟩ := Fault.bind_eq_ok_iff.mp hv
  obtain ⟨outcome, -, hg⟩ := (gives_of_shapes hf ho).exists_of_mem_left he
  exact exists_gives_iff.mp ⟨outcome, hg⟩

end Validation

/-- Let a decoded document repeat no shape id and no member name. Its plain form always has a
verdict. The document has one too if each place that is read by name opens, and it is the same up
to the words of the issues. A run that looks at every definition has a verdict only then. -/
theorem repeats_collapse [Visiting] {document : Value} (hd : document.isDecoded = true)
    (once : Validation.NamesOnce document) : ∃ plain, document.HasPlain plain ∧
      ∀ arrival settings, ∃ other, (validateWith arrival settings plain).outcome = .ok other ∧
        (Validation.EachReadable document → ∃ verdict,
          (validateWith arrival settings document).outcome = .ok verdict ∧ verdict.Alike other) ∧
        (settings.failFast = false →
          (∃ verdict, (validateWith arrival settings document).outcome = .ok verdict) →
            Validation.EachReadable document) := by
  have hw := Value.isWellFormed_of_isDecoded hd
  obtain ⟨plain, hp⟩ := Value.exists_hasPlain_of_isWellFormed hw
  refine ⟨plain, hp, fun arrival settings => ?_⟩
  obtain ⟨other, ho, -⟩ := Validation.exists_verdict (Value.isWellFormed_of_hasPlain hw hp)
    (Validation.eachParses_of_plain hd hp) arrival settings
  refine ⟨other, ho, fun hr => ?_, fun hf hv => ?_⟩
  · obtain ⟨verdict, other', hv, ho', h⟩ :=
      Validation.exists_alike hd hp once hr arrival settings
    obtain rfl : other' = other := Except.ok.inj (ho'.symm.trans ho)
    exact ⟨verdict, hv, h⟩
  · obtain ⟨verdict, hv⟩ := hv
    exact Validation.eachReadable_of_verdict hw hf hv

open scoped Visiting in
/-- Repeated keys in the document, in its metadata and in the value of a trait. -/
theorem repeats_collapse_in_trait : ∃ repeated document plain : Value,
    repeated = .pairs [.tuple [.str "a", .int 1], .tuple [.str "a", .int 2]] ∧
    document = .pairs [.tuple [.str "smithy", .int 2], .tuple [.str "smithy", .str "2.0"],
      .tuple [.str "metadata", repeated], .tuple [.str "shapes", .map [(.str "a#U",
        .map [(.str "type", .str "union"), (.str "members", .map [(.str "m", .map [(.str "target",
          .str "a#B"), (.str "traits", .map [(.str "a#t", repeated)])])])])]]] ∧
    document.isDecoded = true ∧ Validation.NamesOnce document ∧
    Validation.EachReadable document ∧ document.HasPlain plain ∧ ∃ verdict other,
      (validate Settings.standard document).outcome = .ok verdict ∧
      (validate Settings.standard plain).outcome = .ok other ∧ verdict.Alike other := by
  obtain ⟨repeated, hrepeated⟩ : ∃ v : Value,
    v = .pairs [.tuple [.str "a", .int 1], .tuple [.str "a", .int 2]] := ⟨_, rfl⟩
  obtain ⟨document, hdocument⟩ : ∃ v : Value, v = .pairs [.tuple [.str "smithy", .int 2],
    .tuple [.str "smithy", .str "2.0"], .tuple [.str "metadata", repeated],
    .tuple [.str "shapes", .map [(.str "a#U", .map [(.str "type", .str "union"),
      (.str "members", .map [(.str "m", .map [(.str "target", .str "a#B"),
        (.str "traits", .map [(.str "a#t", repeated)])])])])]]] := ⟨_, rfl⟩
  have decoded : document.isDecoded = true := by
    subst hdocument hrepeated
    decide
  have placed : Placed.document document := by
    subst hdocument
    refine .inr ⟨_, .pairs rfl, List.forall_mem_cons.mpr ⟨.inl rfl, List.forall_mem_cons.mpr
      ⟨.inl rfl, List.forall_mem_cons.mpr ⟨.inr (.inl rfl), List.forall_mem_singleton.mpr
        (.inr (.inr ⟨rfl, .inr ⟨_, .map _, List.forall_mem_singleton.mpr ?_⟩⟩))⟩⟩⟩⟩
    refine .inr ⟨_, .inl rfl, List.forall_mem_cons.mpr ⟨.inl rfl, List.forall_mem_singleton.mpr
      (.inr (.inr (.inr ⟨rfl, .inr ⟨_, .map _, List.forall_mem_singleton.mpr ?_⟩⟩)))⟩⟩
    exact .inr ⟨_, .inl rfl, List.forall_mem_cons.mpr ⟨.inl rfl, List.forall_mem_singleton.mpr
      (.inr ⟨rfl, .inr ⟨_, .inl rfl⟩⟩)⟩⟩
  have readable : Validation.EachReadable document := fun _ hl e he =>
    Readable.definition_of_placed (Validation.placed_of_looksAt placed hl e he)
  have once : Validation.NamesOnce document := by
    subst hdocument
    constructor
    · rintro fields hl shapes hs definitions hd
      obtain rfl := hl.unique (.pairs rfl)
      obtain rfl := Option.some.inj hs
      obtain rfl := hd.unique (.map _)
      rfl
    · intro definitions hl e he type es hc f hf policy hk v hv ms hms
      obtain rfl := hl.unique ⟨_, .pairs rfl, .map _, rfl⟩
      rw [List.mem_singleton.mp he] at hc
      cases hc
      rw [List.mem_singleton.mp hf] at hv
      obtain rfl := Option.some.inj hv
      obtain rfl := hms.unique (.map _)
      rfl
  obtain ⟨plain, hp, runs⟩ := repeats_collapse decoded once
  obtain ⟨other, ho, alike, -⟩ := runs .inOrder Settings.standard
  obtain ⟨verdict, hv, h⟩ := alike readable
  exact ⟨repeated, document, plain, hrepeated, hdocument, decoded, once, readable, hp, verdict,
    other, hv, ho, h⟩

open scoped Visiting in
/-- A definition that repeats a field faults, while its plain form is accepted. -/
theorem repeated_field_faults : ∃ document plain : Value,
    document = .map [(.str "smithy", .str "2.0"), (.str "shapes", .map [(.str "a#B",
      .pairs [.tuple [.str "type", .str "blob"], .tuple [.str "type", .str "string"]])])] ∧
    document.isDecoded = true ∧ Validation.NamesOnce document ∧ document.HasPlain plain ∧
    (validate Settings.standard document).outcome = .error .notAPosition ∧
    ∃ model, (validate Settings.standard plain).outcome = .ok ⟨some model, []⟩ := by
  have looks : Validation.LooksAt (.map [(.str "smithy", .str "2.0"), (.str "shapes",
      .map [(.str "a#B", .pairs [.tuple [.str "type", .str "blob"],
        .tuple [.str "type", .str "string"]])])]) _ := ⟨_, .map _, .map _, rfl⟩
  refine ⟨_, .map [(.str "smithy", .str "2.0"), (.str "shapes", .map [(.str "a#B",
    .map [(.str "type", .str "string")])])], rfl, by decide, ⟨?_, ?_⟩, rfl, ?_, ?_⟩
  · rintro fields hl shapes hs definitions hd
    obtain rfl := hl.unique (.map _)
    obtain rfl := Option.some.inj hs
    obtain rfl := hd.unique (.map _)
    rfl
  · intro definitions hl e he type es hc
    obtain rfl := hl.unique looks
    rw [List.mem_singleton.mp he] at hc
    cases hc
  · obtain ⟨listed, hl, hrun⟩ := Validation.outcome_of_looksAt looks
    obtain rfl := hl.unique (.map _)
    exact (hrun .inOrder Settings.standard).trans rfl
  · exact ⟨_, rfl⟩

end ServiceModel
