import ServiceModel.Proofs.Shape.Fields

/-!
# Which definitions are accepted

The form of a definition is checked on its plain form and its contents are read from the definition
itself, each without regard to the other. A shape comes out exactly if the definition has a plain
form and spells that shape.
-/
namespace ServiceModel

namespace Draft

/-- A content that was read, as a draft holds it. -/
def held : Option (String × Content) → Option (String × Option Content) :=
  Option.map fun x => (x.1, some x.2)

theorem filterMap_held (found : List (Option (String × Content))) :
    (((found.map held).filterMap id).filterMap fun (name, content) =>
      content.map fun content => (name, content)) = found.filterMap id := by
  induction found with
  | nil => rfl
  | cons x rest ih => cases x <;> simpa [held] using ih

theorem readField_yields_iff {es : Entries Value} {field : Field}
    {found : Option (String × Option Content)} : (readField (.map es) field).Yields found ↔
      (es.field? field.name = none ∧ found = none) ∨ ∃ v c, es.field? field.name = some v ∧
        (Reading.settled field.kind v).Yields c ∧ found = some (field.name, c) := by
  have look : Value.fieldOf? field.name (.map es) = .ok (es.field? field.name) := rfl
  unfold readField
  rw [look]
  cases es.field? field.name with
  | none => simp [Traced.yields_bind_iff, Traced.yields_lift_iff, Traced.yields_pure_iff, eq_comm]
  | some v =>
    simp only [Traced.yields_bind_iff, Traced.yields_lift_iff, Except.ok.injEq, exists_eq_left',
      Reading.within_yields_iff, Reading.settled_yields_iff, reduceCtorEq, false_and, false_or,
      Option.some.injEq]
    constructor
    · rintro ⟨_ | c, hc, hr⟩
      · exact ⟨v, none, rfl, .inl ⟨hc, rfl⟩, (Traced.yields_pure_iff.mp hr).symm⟩
      · obtain ⟨f, hf, hr⟩ := Traced.yields_bind_iff.mp hr
        exact ⟨v, some f, rfl, .inr ⟨c, f, hc, Traced.yields_lift_iff.mp hf, rfl⟩,
          (Traced.yields_pure_iff.mp hr).symm⟩
    · rintro ⟨_, _, rfl, ⟨hc, rfl⟩ | ⟨c, f, hc, hf, rfl⟩, rfl⟩
      · exact ⟨none, hc, Traced.yields_pure_iff.mpr rfl⟩
      · exact ⟨some c, hc, Traced.yields_bind_iff.mpr
          ⟨f, Traced.yields_lift_iff.mpr hf, Traced.yields_pure_iff.mpr rfl⟩⟩

theorem readField_exact [Visiting] {es ps : Entries Value} {field : Field}
    {found : Option (String × Option Content)} (hq : Entries.Pointwise Value.HasPlain es ps) :
    ((∀ p, ps.field? field.name = some p → Check.ofKind field.kind p = []) ∧
        (field.required = true → ∃ p, ps.field? field.name = some p)) ∧
        (readField (.map es) field).Yields found ↔
      ∃ x, found = held x ∧ ∃ o, x = o.map (fun c => (field.name, c)) ∧ field.SpelledIn es o := by
  rw [readField_yields_iff]
  constructor
  · rintro ⟨⟨hc, hr⟩, ⟨hn, rfl⟩ | ⟨v, c, hv, hs, rfl⟩⟩
    · refine ⟨none, rfl, none, rfl, .absent hn ?_⟩
      cases h : field.required with
      | false => rfl
      | true =>
        obtain ⟨p, hp⟩ := hr h
        rw [hq.field?_none hn] at hp
        cases hp
    · obtain ⟨p, hp, hvp⟩ := hq.field?_of_left hv
      obtain ⟨c, rfl, hcv⟩ := (Reading.settled_exact hvp).mp ⟨hc p hp, hs⟩
      exact ⟨_, rfl, some c, rfl, .present hv hcv⟩
  · rintro ⟨_, rfl, o, rfl, h⟩
    cases h with
    | absent hn ho =>
      refine ⟨⟨fun p hp => ?_, fun hr => ?_⟩, .inl ⟨hn, rfl⟩⟩
      · rw [hq.field?_none hn] at hp
        cases hp
      · rw [ho] at hr
        cases hr
    | @present v c hv hc =>
      obtain ⟨p, hp, hvp⟩ := hq.field?_of_left hv
      obtain ⟨hcheck, hs⟩ := (Reading.settled_exact hvp).mpr ⟨c, rfl, hc⟩
      refine ⟨⟨fun p' hp' => ?_, fun _ => ⟨p, hp⟩⟩, .inr ⟨v, some c, hv, hs, rfl⟩⟩
      obtain rfl := Option.some.inj (hp.symm.trans hp')
      exact hcheck

theorem readMixins_yields_iff {type : ShapeType} {es : Entries Value}
    {found : List (Option Reference)} : (readMixins type (.map es)).Yields found ↔
      ((type.allowsMixins = true → es.field? "mixins" = none) ∧ found = []) ∨
      ∃ v o, type.allowsMixins = true ∧ es.field? "mixins" = some v ∧
        (Reading.references v).Yields o ∧ found = o.getD [] := by
  have look : Value.fieldOf? "mixins" (.map es) = .ok (es.field? "mixins") := rfl
  unfold readMixins
  rw [look]
  cases type.allowsMixins with
  | false => simp [Traced.yields_pure_iff, eq_comm]
  | true =>
    cases es.field? "mixins" with
    | none => simp [Traced.yields_bind_iff, Traced.yields_lift_iff, Traced.yields_pure_iff, eq_comm]
    | some v =>
      simp [Traced.yields_bind_iff, Traced.yields_lift_iff, Traced.yields_map_iff,
        Reading.within_yields_iff]

theorem readMixins_exact {type : ShapeType} {es ps : Entries Value}
    {found : List (Option Reference)} (hq : Entries.Pointwise Value.HasPlain es ps)
    (hk : ∀ e ∈ es, ∃ name ∈ type.names, e.1 = .str name) :
    (∀ p, type.allowsMixins = true → ps.field? "mixins" = some p →
        Check.arrayOf Check.reference p = []) ∧ (readMixins type (.map es)).Yields found ↔
      Shape.MixinsSpelledIn es found := by
  have allowed : ∀ v, es.field? "mixins" = some v → type.allowsMixins = true := by
    intro v hv
    obtain ⟨name, hn, hname⟩ := hk _ (Entries.mem_of_field? hv)
    cases hname
    exact ShapeType.allowsMixins_of_mem_names hn
  rw [readMixins_yields_iff]
  constructor
  · rintro ⟨hc, ⟨hn, rfl⟩ | ⟨v, o, ha, hv, ho, rfl⟩⟩
    · cases hm : es.field? "mixins" with
      | none => exact .absent hm
      | some v =>
        rw [hn (allowed v hm)] at hm
        cases hm
    · obtain ⟨p, hp, hvp⟩ := hq.field?_of_left hv
      obtain ⟨rs, rfl, hl⟩ := (Reading.references_exact hvp).mp ⟨hc p ha hp, ho⟩
      exact .present hv hl
  · intro h
    cases h with
    | absent hn =>
      refine ⟨fun p _ hp => ?_, .inl ⟨fun _ => hn, rfl⟩⟩
      rw [hq.field?_none hn] at hp
      cases hp
    | @present v _ hv hl =>
      obtain ⟨p, hp, hvp⟩ := hq.field?_of_left hv
      obtain ⟨hc, ho⟩ := (Reading.references_exact hvp).mpr ⟨found, rfl, hl⟩
      refine ⟨fun p' _ hp' => ?_, .inr ⟨v, some found, allowed v hv, hv, ho, rfl⟩⟩
      obtain rfl := Option.some.inj (hp.symm.trans hp')
      exact hc

theorem toShape_eq_ok_iff {draft : Draft} {shape : Shape} : draft.toShape = .ok shape ↔
    (∀ name ∈ draft.type.requiredFields, ∃ x ∈ draft.fields, x.1 = name) ∧
      shape = ⟨draft.type, draft.mixins, draft.fields.filterMap fun (name, content) =>
        content.map fun content => (name, content)⟩ := by
  have absent : draft.absent? = none ↔
      ∀ name ∈ draft.type.requiredFields, ∃ x ∈ draft.fields, x.1 = name := by
    simp [absent?, List.find?_eq_none]
  unfold toShape
  rw [← absent]
  cases draft.absent? <;> simp [eq_comm]

theorem read_yields_iff {type : ShapeType} {es : Entries Value} {draft : Draft} :
    (read type (.map es)).Yields draft ↔ ∃ mixins found,
      (readMixins type (.map es)).Yields mixins ∧
      List.Forall₂ (fun f x => (readField (.map es) f).Yields x) type.fields found ∧
      draft = ⟨type, mixins, found.filterMap id⟩ := by
  simp only [read, Traced.yields_bind_iff, Traced.yields_each_iff, Traced.yields_pure_iff]
  constructor
  · rintro ⟨mixins, hm, found, hf, rfl⟩
    exact ⟨mixins, found, hm, hf, rfl⟩
  · rintro ⟨mixins, found, hm, hf, rfl⟩
    exact ⟨mixins, hm, found, hf, rfl⟩

theorem required_held {type : ShapeType} {es : Entries Value}
    {found : List (Option (String × Content))} (hf : Shape.FieldsSpelledIn type es found) :
    ∀ name ∈ type.requiredFields, ∃ x ∈ (found.map held).filterMap id, x.1 = name := by
  intro name hn
  obtain ⟨f, hmem, rfl⟩ := List.mem_map.mp hn
  obtain ⟨hfield, hr⟩ := List.mem_filter.mp hmem
  obtain ⟨x, hx, o, rfl, ho⟩ := hf.exists_of_mem_left hfield
  cases ho with
  | absent _ hopt =>
    rw [hopt] at hr
    cases hr
  | @present v c _ _ =>
    exact ⟨(f.name, some c), List.mem_filterMap.mpr ⟨_, List.mem_map_of_mem hx, rfl⟩, rfl⟩

/-- The rules for a definition and its reading are exact together. -/
theorem draft_exact [Visiting] {type : ShapeType} {es ps : Entries Value} {shape : Shape}
    (hq : Entries.Pointwise Value.HasPlain es ps)
    (ht : es.field? "type" = some (.str type.tag)) :
    Check.ofShapeType type (.map ps) = [] ∧
        (∃ draft, (read type (.map es)).Yields draft ∧ draft.toShape = .ok shape) ↔
      shape.type = type ∧ shape.SpelledIn es := by
  constructor
  · rintro ⟨hc, draft, hr, hs⟩
    obtain ⟨_, hps, -, hmixins, hfields, hkeys⟩ := Check.ofShapeType_eq_nil_iff.mp hc
    cases hps
    have hk := (hq.forall_keys_iff fun k => ∃ name ∈ type.names, k = .str name).mpr hkeys
    obtain ⟨mixins, found, hm, hf, rfl⟩ := read_yields_iff.mp hr
    obtain ⟨contents, rfl, hcontents⟩ := List.Forall₂.image_iff.mp
      (hf.imp_of_mem fun f hmem x _ hx => (readField_exact hq).mp ⟨hfields f hmem, hx⟩)
    obtain ⟨-, rfl⟩ := toShape_eq_ok_iff.mp hs
    rw [filterMap_held]
    exact ⟨rfl, Shape.spelledIn_of_fields ht hk ((readMixins_exact hq hk).mp ⟨hmixins, hm⟩)
      hcontents⟩
  · rintro ⟨rfl, h⟩
    obtain ⟨contents, hcontents, hshape⟩ := Shape.fieldsSpelledIn_of_spelledIn h
    have exact : ∀ f x, (∃ o, x = o.map (fun c => (f.name, c)) ∧ f.SpelledIn es o) →
        _ ∧ (readField (.map es) f).Yields (held x) := fun f x hx =>
      (readField_exact hq).mpr ⟨x, rfl, hx⟩
    obtain ⟨hmixins, hm⟩ := (readMixins_exact hq h.known).mpr h.mixins
    obtain ⟨p, hp, hv⟩ := hq.field?_of_left ht
    cases hv
    refine ⟨Check.ofShapeType_eq_nil_iff.mpr ⟨ps, rfl, hp, hmixins, fun f hf => ?_, ?_⟩, ?_⟩
    · obtain ⟨x, -, hx⟩ := hcontents.exists_of_mem_left hf
      exact (exact f x hx).1
    · exact (hq.forall_keys_iff fun k => ∃ name ∈ shape.type.names, k = .str name).mp h.known
    · refine ⟨_, read_yields_iff.mpr ⟨shape.mixins, contents.map held, hm, ?_, rfl⟩,
        toShape_eq_ok_iff.mpr ⟨required_held hcontents, ?_⟩⟩
      · rw [List.forall₂_map_right_iff]
        exact hcontents.imp fun f x hx => (exact f x hx).2
      · rw [filterMap_held, ← hshape]

end Draft

namespace Shape

/-- A definition with a known tag is a mapping that can be read by name. -/
theorem classify_eq_ok_iff {node : Value} {type : ShapeType} {es : Entries Value} :
    classify node = .ok (.ok (type, es)) ↔
      node.Maps es ∧ es.field? "type" = some (.str type.tag) := by
  have known : ∀ {v}, ShapeType.ofValue? v = some type ↔ v = .str type.tag := by
    intro v
    constructor
    · intro h
      unfold ShapeType.ofValue? at h
      split at h
      · rw [ShapeType.tag_of_ofTag? h]
      · cases h
    · rintro rfl
      exact ShapeType.ofTag?_tag type
  constructor
  · intro h
    obtain ⟨o, he, h⟩ := Fault.bind_eq_ok_iff.mp h
    cases o with
    | none => cases h
    | some entries =>
      dsimp only at h
      split at h
      · cases h
      · rename_i v hv
        split at h
        · cases h
        · rename_i t ht
          rw [Fault.pure_eq_ok_iff] at h
          cases h
          rw [known] at ht
          subst ht
          exact ⟨Value.maps_of_mem_text he (Entries.mem_of_field? hv) ⟨"type", rfl⟩, hv⟩
  · rintro ⟨hm, ht⟩
    unfold classify
    rw [hm.entries?_eq]
    simp [bind, Except.bind, ht, known.mpr rfl, pure, Except.pure]

theorem finish_eq_ok_some_iff {path : Path} {issues : List Issue} {type : ShapeType} {node : Value}
    {shape : Shape} : (Collector.finish ⟨path, issues⟩ type node).2 = .ok (some shape) ↔
      issues = [] ∧ ∃ draft, (Draft.read type node).Yields draft ∧ draft.toShape = .ok shape := by
  simp only [Collector.finish, Collector.take, Fault.bind_eq_ok_iff, Traced.Yields,
    List.isEmpty_iff, List.append_eq_nil_iff, List.map_eq_nil_iff]
  constructor
  · rintro ⟨draft, hd, h⟩
    split at h
    · rename_i hempty
      obtain ⟨s, hs, h⟩ := Fault.bind_eq_ok_iff.mp h
      cases h
      exact ⟨hempty.1, draft, ⟨hempty.2, hd⟩, hs⟩
    · cases h
  · rintro ⟨rfl, draft, ⟨ht, hd⟩, hs⟩
    refine ⟨draft, hd, ?_⟩
    rw [if_pos ⟨rfl, ht⟩]
    exact Fault.bind_eq_ok_iff.mpr ⟨shape, hs, rfl⟩

section
variable [Visiting]

/-- What parsing does once the type of a definition is known. -/
theorem parse_of_classified {node plain : Value} {path : Path} {type : ShapeType}
    {es : Entries Value} {issues : List Issue} (hc : classify node = .ok (.ok (type, es)))
    (hp : (Value.map es).HasPlain plain) (hi : type.structuralIssuesAt path plain = .ok issues) :
    parse node path =
      ⟨(Collector.finish ⟨path, issues⟩ type (.map es)).1.issues,
        (Collector.finish ⟨path, issues⟩ type (.map es)).2⟩ := by
  unfold parse
  rw [Traced.bind_of_ok (m := Traced.lift (classify node)) hc]
  dsimp only
  rw [Traced.bind_of_ok (m := Traced.lift (Value.map es).toPlain) hp,
    Traced.bind_of_ok (m := Traced.lift (type.structuralIssuesAt path plain)) hi]
  rfl

/-- The steps of a run of `parse` that ends with a shape or with none. -/
theorem parse_cases {node : Value} {path : Path} {result : Option Shape}
    (h : (parse node path).outcome = .ok result) :
    ((parse node path).trace ≠ [] ∧ result = none) ∨
      ∃ type es plain issues, classify node = .ok (.ok (type, es)) ∧
        (Value.map es).HasPlain plain ∧ type.structuralIssuesAt path plain = .ok issues := by
  obtain ⟨classified, hc, hr⟩ := Traced.outcome_bind_eq_ok_iff.mp h
  cases classified with
  | error issue =>
    refine .inl ⟨?_, ?_⟩
    · unfold parse
      rw [Traced.bind_of_ok hc]
      dsimp only
      rw [Traced.bind_of_ok (a := ()) rfl]
      simp [Traced.emit]
    · obtain ⟨_, -, hr⟩ := Traced.outcome_bind_eq_ok_iff.mp hr
      exact (Traced.outcome_pure_eq_ok_iff.mp hr).symm
  | ok found =>
    obtain ⟨type, es⟩ := found
    obtain ⟨plain, hp, hr⟩ := Traced.outcome_bind_eq_ok_iff.mp hr
    obtain ⟨issues, hi, -⟩ := Traced.outcome_bind_eq_ok_iff.mp hr
    exact .inr ⟨type, es, plain, issues, hc, hp, hi⟩

theorem spelled_of_parse {node : Value} {path : Path} {shape : Shape}
    (h : (parse node path).outcome = .ok (some shape)) :
    (∃ plain, node.HasPlain plain) ∧ shape.SpelledBy node := by
  rcases parse_cases h with ⟨-, hnone⟩ | ⟨type, es, plain, issues, hc, hp, hi⟩
  · cases hnone
  · rw [parse_of_classified hc hp hi, finish_eq_ok_some_iff] at h
    obtain ⟨rfl, hdraft⟩ := h
    obtain ⟨hm, ht⟩ := classify_eq_ok_iff.mp hc
    obtain ⟨ps, hq, rfl⟩ := Value.hasPlain_map_iff.mp hp
    rw [ShapeType.structuralIssuesAt_eq_nil_iff] at hi
    obtain ⟨rfl, hs⟩ := (Draft.draft_exact hq ht).mp ⟨hi, hdraft⟩
    exact ⟨⟨.map ps, hm.hasPlain_iff.mpr ⟨ps, hq, rfl⟩⟩, es, hm, hs⟩

theorem parse_of_spelled {node plain : Value} {shape : Shape} (hp : node.HasPlain plain)
    (h : shape.SpelledBy node) (path : Path) : parse node path = ⟨[], .ok (some shape)⟩ := by
  obtain ⟨es, hm, hs⟩ := h
  obtain ⟨ps, hq, rfl⟩ := hm.hasPlain_iff.mp hp
  obtain ⟨hi, draft, hd, hshape⟩ := (Draft.draft_exact hq hs.type).mpr ⟨rfl, hs⟩
  have hissues : shape.type.structuralIssuesAt path (.map ps) = .ok [] :=
    ShapeType.structuralIssuesAt_eq_nil_iff.mpr hi
  rw [parse_of_classified (classify_eq_ok_iff.mpr ⟨hm, hs.type⟩)
    (Value.hasPlain_map_iff.mpr ⟨ps, hq, rfl⟩) hissues]
  congr 1
  · simp [Collector.finish, Collector.take, hd.1]
  · exact finish_eq_ok_some_iff.mpr ⟨rfl, draft, hd, hshape⟩

theorem parse_eq_iff {node : Value} {path : Path} {shape : Shape} :
    parse node path = ⟨[], .ok (some shape)⟩ ↔
      (∃ plain, node.HasPlain plain) ∧ shape.SpelledBy node := by
  constructor
  · intro h
    exact spelled_of_parse (show (parse node path).outcome = _ by rw [h])
  · rintro ⟨⟨plain, hp⟩, hs⟩
    exact parse_of_spelled hp hs path

/-- A run without issues ends with a shape. -/
theorem isSome_of_parse {node : Value} {path : Path} {result : Option Shape}
    (h : (parse node path).Yields result) : ∃ shape, result = some shape := by
  rcases parse_cases h.2 with ⟨ht, -⟩ | ⟨type, es, plain, issues, hc, hp, hi⟩
  · exact absurd h.1 ht
  · rw [parse_of_classified hc hp hi] at h
    obtain ⟨ht, ho⟩ := h
    obtain ⟨draft, -, hr⟩ := Fault.bind_eq_ok_iff.mp ho
    split at hr
    · obtain ⟨shape, -, hr⟩ := Fault.bind_eq_ok_iff.mp hr
      exact ⟨shape, (Fault.pure_eq_ok_iff.mp hr).symm⟩
    · rename_i hne
      exact absurd (List.isEmpty_iff.mpr ht) hne

end

end Shape

end ServiceModel
