import ServiceModel.Proofs.Runs
import ServiceModel.Proofs.Shape.Rules
import ServiceModel.Proofs.Shape.Spelling
import ServiceModel.Shape.Reading

/-!
# Contents are read as they are spelled

A reader passes over what has the wrong form, and a structural rule does not look at identifiers or
at the names of members. For each kind of content the two together are exact: the plain form of a
value meets the rules and its reading finds no issue exactly if the value spells what was read.
-/
namespace ServiceModel.Reading
variable {rule : Rule}

/-! A mapping read by name. -/

theorem exists_entries_of_yields {α : Type} {value : Value} {ps : Entries Value} {a : α}
    {f : Option (Entries Value) → Reading α} (hp : value.HasPlain (.map ps))
    (h : (Traced.lift value.entries? >>= f).Yields a) :
    ∃ es, value.entries? = .ok (some es) ∧ (f (some es)).Yields a := by
  obtain ⟨found, hf, hr⟩ := Traced.yields_bind_iff.mp h
  rw [Traced.yields_lift_iff] at hf
  cases found with
  | some es => exact ⟨es, hf, hr⟩
  | none =>
    rw [Value.entries?_eq_ok_none_iff, hp.hasEntries] at hf
    cases hf

theorem yields_entries_iff {α : Type} {value : Value} {es : Entries Value} {a : α}
    {f : Option (Entries Value) → Reading α} (hm : value.Maps es) :
    (Traced.lift value.entries? >>= f).Yields a ↔ (f (some es)).Yields a := by
  simp [Traced.yields_bind_iff, Traced.yields_lift_iff, hm.entries?_eq]

theorem within_yields_iff {α : Type} {path : Path} {reading : Reading α} {a : α} :
    (within path reading).Yields a ↔ reading.Yields a := Traced.yields_relabel_iff

theorem token_yields_iff {value : Value} {found : Option (Token rule)} :
    (token rule value).Yields found ↔ ∃ token, found = some token ∧ token.SpelledBy value := by
  unfold token
  cases h : Token.parse rule value with
  | ok read =>
    simp only [Traced.yields_pure_iff, ← Token.parse_eq_ok_iff, h, Except.ok.injEq]
    exact ⟨fun hs => ⟨read, hs.symm, rfl⟩, fun ⟨_, hf, he⟩ => by rw [hf, he]⟩
  | error refusal =>
    simp [Traced.yields_map_iff, report, Traced.yields_emit_iff, ← Token.parse_eq_ok_iff, h]

theorem reference_yields_iff {value : Value} {es : Entries Value} {text : String}
    {found : Option Reference} (hm : value.Maps es) (ht : es.field? "target" = some (.str text)) :
    (reference value).Yields found ↔
      ∃ r : Reference, found = some r ∧ r.target.SpelledBy (.str text) := by
  simp only [reference, yields_entries_iff hm, ht]
  simp only [Option.getD_some, tokenOfText, bind_pure_comp, Traced.yields_map_iff,
    within_yields_iff, token_yields_iff]
  constructor
  · rintro ⟨_, ⟨id, rfl, hid⟩, rfl⟩
    exact ⟨⟨id⟩, rfl, hid⟩
  · rintro ⟨r, rfl, hr⟩
    exact ⟨_, ⟨r.target, rfl, hr⟩, rfl⟩

theorem reference_exact {value plain : Value} {found : Option Reference}
    (hp : value.HasPlain plain) : Check.reference plain = [] ∧ (reference value).Yields found ↔
      ∃ r, found = some r ∧ r.SpelledBy value := by
  constructor
  · rintro ⟨hc, hr⟩
    obtain ⟨ps, rfl, ⟨text, ht⟩, hk⟩ := Check.reference_eq_nil_iff.mp hc
    obtain ⟨es, he, -⟩ := exists_entries_of_yields hp hr
    obtain ⟨hm, hq⟩ := Value.maps_of_plain_field he hp ht
    obtain ⟨v, hv, hvp⟩ := hq.field?_of_right ht
    obtain rfl := Value.hasPlain_scalar_iff.mp hvp
    obtain ⟨r, rfl, htext, ha⟩ := (reference_yields_iff hm hv).mp hr
    cases htext
    exact ⟨r, rfl, es, hm, hv, ha, (hq.forall_keys_iff (· = .str "target")).mpr hk⟩
  · rintro ⟨r, rfl, es, hm, h⟩
    obtain ⟨ps, hq, rfl⟩ := hm.hasPlain_iff.mp hp
    obtain ⟨p, hpt, hvp⟩ := hq.field?_of_left h.target
    cases hvp
    have known := (hq.forall_keys_iff (· = .str "target")).mp h.known
    exact ⟨Check.reference_eq_nil_iff.mpr ⟨ps, rfl, ⟨_, hpt⟩, known⟩,
      (reference_yields_iff hm h.target).mpr ⟨r, rfl, rfl, h.accepted⟩⟩

/-! Members. -/

theorem memberTrait_yields_iff {key : Key} {value : Value} {found : Option (AbsoluteId × Value)} :
    (memberTrait key value).Yields found ↔
      ∃ x, found = some x ∧ key = .str x.1.text ∧ x.1.Accepted ∧ value.Settles x.2 := by
  simp only [memberTrait, Traced.yields_bind_iff, within_yields_iff, token_yields_iff]
  constructor
  · rintro ⟨_, ⟨id, rfl, hid, ha⟩, hr⟩
    simp only [Traced.yields_bind_iff, Traced.yields_lift_iff, Traced.yields_pure_iff] at hr
    obtain ⟨p, hp, f, hf, rfl⟩ := hr
    exact ⟨(id, f), rfl, Value.toValue_injective hid, ha, Value.settles_iff.mpr ⟨p, hp, hf⟩⟩
  · rintro ⟨⟨id, f⟩, rfl, rfl, ha, hs⟩
    obtain ⟨p, hp, hf⟩ := Value.settles_iff.mp hs
    refine ⟨some id, ⟨id, rfl, rfl, ha⟩, ?_⟩
    simp only [Traced.yields_bind_iff, Traced.yields_lift_iff, Traced.yields_pure_iff]
    exact ⟨p, hp, f, hf, rfl⟩

theorem each_memberTrait_yields_iff {ts : Entries Value}
    {found : List (Option (AbsoluteId × Value))} :
    (Traced.each (fun e => memberTrait e.1 e.2) ts).Yields found ↔
      ∃ traits, found = traits.map some ∧ ts.Spell Value.Settles traits := by
  simp only [Traced.yields_each_iff, memberTrait_yields_iff]
  exact List.Forall₂.image_iff

theorem memberTraits_exact {es ps : Entries Value} {traits : List (AbsoluteId × Value)}
    (hq : Entries.Pointwise Value.HasPlain es ps) :
    (∀ p, ps.field? "traits" = some p → ∃ ts, p = .map ts) ∧ (memberTraits es).Yields traits ↔
      Member.TraitsSpelledIn es traits := by
  simp only [memberTraits, Traced.yields_bind_iff, Traced.yields_lift_iff, Traced.yields_pure_iff,
    each_memberTrait_yields_iff]
  constructor
  · rintro ⟨ho, raw, hraw, _, ⟨ts, rfl, hs⟩, rfl⟩
    rw [List.filterMap_map, Function.id_comp, List.filterMap_some]
    cases hv : es.field? "traits" with
    | none =>
      rw [hv] at hraw
      cases hraw
      cases hs
      exact .absent hv
    | some value =>
      obtain ⟨p, hp, hvp⟩ := hq.field?_of_left hv
      obtain ⟨qs, rfl⟩ := ho p hp
      rw [hv] at hraw
      cases raw with
      | none =>
        rw [Option.getD_some, Value.entries?_eq_ok_none_iff, hvp.hasEntries] at hraw
        cases hraw
      | some entries =>
        refine .present hv (Value.maps_of_texts hraw fun e he => ?_) hs
        obtain ⟨x, -, hk, -⟩ := hs.exists_of_mem_left he
        exact ⟨_, hk⟩
  · intro h
    cases h with
    | absent hv =>
      refine ⟨fun p hp => ?_, some [], by rw [hv]; rfl, [], ⟨[], rfl, .nil⟩, rfl⟩
      rw [hq.field?_none hv] at hp
      cases hp
    | @present value ts _ hv hm hs =>
      refine ⟨fun p hp => ?_, some ts, by rw [hv]; exact hm.entries?_eq, _, ⟨traits, rfl, hs⟩, ?_⟩
      · obtain ⟨v, hv', hvp⟩ := hq.field?_of_right hp
        obtain rfl := Option.some.inj (hv.symm.trans hv')
        obtain ⟨qs, -, rfl⟩ := hm.hasPlain_iff.mp hvp
        exact ⟨qs, rfl⟩
      · rw [List.filterMap_map, Function.id_comp, List.filterMap_some]

theorem member_exact {value plain : Value} {found : Option Member} (hp : value.HasPlain plain) :
    Check.member plain = [] ∧ (member value).Yields found ↔
      ∃ m, found = some m ∧ m.SpelledBy value := by
  constructor
  · rintro ⟨hc, hr⟩
    obtain ⟨ps, rfl, ⟨text, ht⟩, ho, hk⟩ := Check.member_eq_nil_iff.mp hc
    obtain ⟨ref, href, hr⟩ := Traced.yields_bind_iff.mp hr
    obtain ⟨es, he, hr⟩ := exists_entries_of_yields hp hr
    obtain ⟨hm, hq⟩ := Value.maps_of_plain_field he hp ht
    obtain ⟨v, hv, hvp⟩ := hq.field?_of_right ht
    obtain rfl := Value.hasPlain_scalar_iff.mp hvp
    obtain ⟨r, rfl, htext, ha⟩ := (reference_yields_iff hm hv).mp href
    cases htext
    obtain ⟨traits, htraits, hr⟩ := Traced.yields_bind_iff.mp hr
    obtain rfl := Traced.yields_pure_iff.mp hr
    exact ⟨⟨r, traits⟩, rfl, es, hm, hv, ha, (memberTraits_exact hq).mp ⟨ho, htraits⟩,
      (hq.forall_keys_iff fun k => k = .str "target" ∨ k = .str "traits").mpr hk⟩
  · rintro ⟨m, rfl, es, hm, h⟩
    obtain ⟨ps, hq, rfl⟩ := hm.hasPlain_iff.mp hp
    obtain ⟨p, hpt, hvp⟩ := hq.field?_of_left h.target
    cases hvp
    obtain ⟨ho, htraits⟩ := (memberTraits_exact hq).mpr h.traits
    refine ⟨Check.member_eq_nil_iff.mpr ⟨ps, rfl, ⟨_, hpt⟩, ho, ?_⟩, ?_⟩
    · exact (hq.forall_keys_iff fun k => k = .str "target" ∨ k = .str "traits").mp h.known
    · refine Traced.yields_bind_iff.mpr ⟨some m.reference, ?_, (yields_entries_iff hm).mpr ?_⟩
      · exact (reference_yields_iff hm h.target).mpr ⟨m.reference, rfl, rfl, h.accepted⟩
      · exact Traced.yields_bind_iff.mpr ⟨m.traits, htraits, Traced.yields_pure_iff.mpr rfl⟩

/-! Lists and maps of references, and other maps that are read entry by entry. -/

theorem references_yields_iff {value : Value} {items : List Value}
    {found : Option (List (Option Reference))} (hi : value.Items items) :
    (references value).Yields found ↔ ∃ rs, found = some rs ∧
      List.Forall₂ (fun item r => (reference item).Yields r) items rs := by
  have each : ∀ rs, (Traced.each (fun item : Value × Nat =>
      within [.int item.2] (reference item.1)) items.zipIdx).Yields rs ↔
        List.Forall₂ (fun item r => (reference item).Yields r) items rs := by
    intro rs
    simp only [Traced.yields_each_iff, within_yields_iff]
    rw [← List.forall₂_map_left_iff (f := Prod.fst) (R := fun v r => (reference v).Yields r),
      List.zipIdx_map_fst]
  have same : references value = Traced.each (fun item : Value × Nat =>
      within [.int item.2] (reference item.1)) items.zipIdx >>= fun rs => pure (some rs) := by
    cases hi <;> rfl
  simp only [same, Traced.yields_bind_iff, each, Traced.yields_pure_iff]
  exact ⟨fun ⟨rs, hr, he⟩ => ⟨rs, he.symm, hr⟩, fun ⟨rs, he, hr⟩ => ⟨rs, hr, he.symm⟩⟩

theorem references_exact {value plain : Value} {found : Option (List (Option Reference))}
    (hp : value.HasPlain plain) :
    Check.arrayOf Check.reference plain = [] ∧ (references value).Yields found ↔
      ∃ rs, found = some rs ∧ Reference.Listed rs value := by
  constructor
  · rintro ⟨ha, hr⟩
    obtain ⟨qs, rfl, hc⟩ := Check.arrayOf_eq_nil_iff.mp ha
    obtain ⟨items, hi, hq⟩ := hp.items
    obtain ⟨rs, rfl, hrs⟩ := (references_yields_iff hi).mp hr
    exact ⟨rs, rfl, items, hi,
      (hq.and_iff fun _ _ _ _ hv => reference_exact hv).mp ⟨hc, hrs⟩⟩
  · rintro ⟨rs, rfl, items, hi, h⟩
    obtain ⟨qs, hq, rfl⟩ := hi.hasPlain_iff.mp hp
    obtain ⟨hc, hr⟩ := (hq.and_iff fun _ _ _ _ hv => reference_exact hv).mpr h
    exact ⟨Check.arrayOf_eq_nil_iff.mpr ⟨qs, rfl, hc⟩,
      (references_yields_iff hi).mpr ⟨rs, rfl, hr⟩⟩

/-- The entries of a mapping, read one by one. -/
def mapping {α : Type} (entry : Key → Value → Reading (Option α)) (value : Value) :
    Reading (Option (List α)) := do
  match ← Traced.lift value.entries? with
  | none => return none
  | some entries =>
    let found ← Traced.each (fun e => entry e.1 e.2) entries
    return some (found.filterMap id)

theorem mapping_exact {α : Type} {entry : Key → Value → Reading (Option α)} {C : Value → Prop}
    {S : Key × Value → α → Prop}
    (text : ∀ key value found, (entry key value).Yields found → key.IsText)
    (exact : ∀ (e : Key × Value) q found, e.2.HasPlain q →
      (C q ∧ (entry e.1 e.2).Yields found ↔ ∃ x, found = some x ∧ S e x))
    {value plain : Value} {found : Option (List α)} (hp : value.HasPlain plain) :
    (∃ ps : Entries Value, plain = .map ps ∧ ∀ q ∈ ps, C q.2) ∧ (mapping entry value).Yields found ↔
      ∃ xs, found = some xs ∧ ∃ es, value.Maps es ∧ List.Forall₂ S es xs := by
  have all : ∀ {es ps os}, Entries.Pointwise Value.HasPlain es ps →
      ((∀ q ∈ ps, C q.2) ∧ (Traced.each (fun e => entry e.1 e.2) es).Yields os ↔
        ∃ xs, os = xs.map some ∧ List.Forall₂ S es xs) := by
    intro es ps os hq
    rw [Traced.yields_each_iff, ← List.Forall₂.image_iff]
    exact hq.and_iff fun e _ q o h => exact e q.2 o h.2
  constructor
  · rintro ⟨⟨ps, rfl, hc⟩, hr⟩
    obtain ⟨es, he, hr⟩ := exists_entries_of_yields hp hr
    obtain ⟨os, ho, hr⟩ := Traced.yields_bind_iff.mp hr
    have hm : value.Maps es := Value.maps_of_texts he fun e hm => by
      obtain ⟨o, -, ho⟩ := (Traced.yields_each_iff.mp ho).exists_of_mem_left hm
      exact text _ _ _ ho
    obtain ⟨qs, hq, hqs⟩ := hm.hasPlain_iff.mp hp
    cases hqs
    obtain ⟨xs, rfl, hs⟩ := (all hq).mp ⟨hc, ho⟩
    rw [Traced.yields_pure_iff, List.filterMap_map, Function.id_comp, List.filterMap_some] at hr
    exact ⟨xs, hr.symm, es, hm, hs⟩
  · rintro ⟨xs, rfl, es, hm, hs⟩
    obtain ⟨ps, hq, rfl⟩ := hm.hasPlain_iff.mp hp
    obtain ⟨hc, ho⟩ := (all hq).mpr ⟨xs, rfl, hs⟩
    refine ⟨⟨ps, rfl, hc⟩, (yields_entries_iff hm).mpr (Traced.yields_bind_iff.mpr ⟨_, ho, ?_⟩)⟩
    rw [Traced.yields_pure_iff, List.filterMap_map, Function.id_comp, List.filterMap_some]

theorem referenceMap_exact [Visiting] {value plain : Value}
    {found : Option (List (String × Option Reference))}
    (hp : value.HasPlain plain) :
    Check.mapOf Check.reference plain = [] ∧ (referenceMap value).Yields found ↔
      ∃ xs, found = some xs ∧ ∃ es, value.Maps es ∧ List.Forall₂ Reference.SpelledAt es xs := by
  have text : ∀ key value found, (referenceEntry key value).Yields found → key.IsText := by
    intro key value found h
    unfold referenceEntry at h
    split at h
    · rename_i name
      exact ⟨name, rfl⟩
    · simp [Traced.yields_map_iff, within_yields_iff, report, Traced.yields_emit_iff] at h
  have exact : ∀ (e : Key × Value) q found, e.2.HasPlain q →
      (Check.reference q = [] ∧ (referenceEntry e.1 e.2).Yields found ↔
        ∃ x, found = some x ∧ Reference.SpelledAt e x) := by
    rintro ⟨key, v⟩ q found hv
    constructor
    · rintro ⟨hc, hr⟩
      obtain ⟨name, rfl⟩ := text _ _ _ hr
      obtain ⟨o, ho, hr⟩ := Traced.yields_bind_iff.mp hr
      obtain rfl := Traced.yields_pure_iff.mp hr
      obtain ⟨r, rfl, hs⟩ := (reference_exact hv).mp ⟨hc, within_yields_iff.mp ho⟩
      exact ⟨_, rfl, rfl, r, rfl, hs⟩
    · rintro ⟨⟨name, _⟩, rfl, rfl, r, rfl, hs⟩
      obtain ⟨hc, hr⟩ := (reference_exact hv).mpr ⟨r, rfl, hs⟩
      exact ⟨hc, Traced.yields_bind_iff.mpr
        ⟨some r, within_yields_iff.mpr hr, Traced.yields_pure_iff.mpr rfl⟩⟩
  rw [Check.mapOf_eq_nil_iff]
  exact mapping_exact (C := fun q => Check.reference q = []) text exact hp

theorem traitMap_exact {value plain : Value} {found : Option (List (ShapeId × Value))}
    (hp : value.HasPlain plain) :
    Check.ofType .object plain = [] ∧ (traitMap value).Yields found ↔
      ∃ xs, found = some xs ∧ ∃ es, value.Maps es ∧ es.Spell Value.HasPlain xs := by
  have entry : ∀ key value found, (traitEntry key value).Yields found ↔ ∃ x : ShapeId × Value,
      found = some x ∧ key = .str x.1.text ∧ x.1.Accepted ∧ value.HasPlain x.2 := by
    intro key value found
    simp only [traitEntry, Traced.yields_bind_iff, within_yields_iff, token_yields_iff]
    constructor
    · rintro ⟨_, ⟨id, rfl, hid, ha⟩, hr⟩
      simp only [Traced.yields_bind_iff, Traced.yields_lift_iff, Traced.yields_pure_iff] at hr
      obtain ⟨p, hp, rfl⟩ := hr
      exact ⟨(id, p), rfl, Value.toValue_injective hid, ha, hp⟩
    · rintro ⟨⟨id, p⟩, rfl, rfl, ha, hp⟩
      refine ⟨some id, ⟨id, rfl, rfl, ha⟩, ?_⟩
      simp only [Traced.yields_bind_iff, Traced.yields_lift_iff, Traced.yields_pure_iff]
      exact ⟨p, hp, rfl⟩
  have text : ∀ key value found, (traitEntry key value).Yields found → key.IsText := by
    intro key value found h
    obtain ⟨x, -, hk, -⟩ := (entry key value found).mp h
    exact ⟨_, hk⟩
  have exact : ∀ (e : Key × Value) q found, e.2.HasPlain q →
      (True ∧ (traitEntry e.1 e.2).Yields found ↔ ∃ x : ShapeId × Value,
        found = some x ∧ e.1 = .str x.1.text ∧ x.1.Accepted ∧ e.2.HasPlain x.2) := by
    intro e q found _
    rw [true_and, entry]
  refine Iff.trans ?_ (mapping_exact (C := fun _ => True) text exact hp)
  rw [Check.object_eq_nil_iff]
  simp only [implies_true, and_true]
  rfl

theorem identifierMap_exact [Visiting] {value plain : Value}
    {found : Option (List (ShapeId × Identifier))}
    (hp : value.HasPlain plain) :
    Check.mapOf (Check.ofType .string) plain = [] ∧ (identifierMap value).Yields found ↔
      ∃ xs, found = some xs ∧ ∃ es, value.Maps es ∧
        es.Spell (fun v (name : Identifier) => name.SpelledBy v) xs := by
  have text : ∀ key value found, (identifierEntry key value).Yields found → key.IsText := by
    intro key value found h
    simp only [identifierEntry, Traced.yields_bind_iff, within_yields_iff, token_yields_iff] at h
    obtain ⟨_, ⟨id, rfl, hid, -⟩, -⟩ := h
    exact ⟨id.text, Value.toValue_injective hid⟩
  have exact : ∀ (e : Key × Value) q found, e.2.HasPlain q →
      (Check.ofType .string q = [] ∧ (identifierEntry e.1 e.2).Yields found ↔
        ∃ x : ShapeId × Identifier, found = some x ∧
          e.1 = .str x.1.text ∧ x.1.Accepted ∧ x.2.SpelledBy e.2) := by
    rintro ⟨key, v⟩ q found hv
    simp only [identifierEntry, Traced.yields_bind_iff, within_yields_iff, token_yields_iff]
    constructor
    · rintro ⟨hc, _, ⟨id, rfl, hid, ha⟩, o, ho, hr⟩
      obtain ⟨s, rfl⟩ := Check.string_eq_nil_iff.mp hc
      obtain rfl := Value.hasPlain_scalar_iff.mp hv
      obtain ⟨name, rfl, hname⟩ := token_yields_iff.mp ho
      exact ⟨(id, name), (Traced.yields_pure_iff.mp hr).symm, Value.toValue_injective hid, ha,
        hname⟩
    · rintro ⟨⟨id, name⟩, rfl, rfl, ha, rfl, hn⟩
      cases hv
      exact ⟨Check.string_eq_nil_iff.mpr ⟨_, rfl⟩, some id, ⟨id, rfl, rfl, ha⟩, some name,
        token_yields_iff.mpr ⟨name, rfl, rfl, hn⟩, Traced.yields_pure_iff.mpr rfl⟩
  rw [Check.mapOf_eq_nil_iff]
  exact mapping_exact (C := fun q => Check.ofType .string q = []) text exact hp

end ServiceModel.Reading
