import ServiceModel.Proofs.Shape.MemberMaps

/-!
# Contents as a shape keeps them

What is read of a field becomes a content, and the values of its traits are fixed. With the rules
for its kind this is exact for every kind of content.
-/
namespace ServiceModel.Reading

/-- A content as a shape keeps it, with the values of its traits fixed. -/
def settled (kind : ContentKind) (value : Value) : Reading (Option Content) := do
  match ← content kind value with
  | none => return none
  | some content =>
    let content ← Traced.lift content.toFixed
    return some content

theorem settled_yields_iff {kind : ContentKind} {value : Value} {found : Option Content} :
    (settled kind value).Yields found ↔
      ((content kind value).Yields none ∧ found = none) ∨
      ∃ c f, (content kind value).Yields (some c) ∧ c.toFixed = .ok f ∧ found = some f := by
  simp only [settled, Traced.yields_bind_iff]
  constructor
  · rintro ⟨_ | c, hc, hr⟩
    · exact .inl ⟨hc, (Traced.yields_pure_iff.mp hr).symm⟩
    · obtain ⟨f, hf, hr⟩ := Traced.yields_bind_iff.mp hr
      exact .inr ⟨c, f, hc, Traced.yields_lift_iff.mp hf, (Traced.yields_pure_iff.mp hr).symm⟩
  · rintro (⟨hc, rfl⟩ | ⟨c, f, hc, hf, rfl⟩)
    · exact ⟨none, hc, Traced.yields_pure_iff.mpr rfl⟩
    · exact ⟨some c, hc, Traced.yields_bind_iff.mpr
        ⟨f, Traced.yields_lift_iff.mpr hf, Traced.yields_pure_iff.mpr rfl⟩⟩

/-- A content that is what one reader reads, and of which nothing inside has to be fixed. -/
theorem settled_exact_of_map {α : Type} {kind : ContentKind} {value : Value} {P : Prop}
    {S : α → Prop} {r : Reading (Option α)} {g f : α → Content}
    (read : content kind value = Option.map g <$> r) (kept : ∀ a, (g a).toFixed = .ok (f a))
    (exact : ∀ o, P ∧ r.Yields o ↔ ∃ x, o = some x ∧ S x)
    (spelled : ∀ c : Content, c.SpelledBy kind value ↔ ∃ x, c = f x ∧ S x)
    {found : Option Content} :
    P ∧ (settled kind value).Yields found ↔ ∃ c, found = some c ∧ c.SpelledBy kind value := by
  simp only [settled_yields_iff, read, Traced.yields_map_iff]
  constructor
  · rintro ⟨hP, ⟨⟨o, ho, he⟩, -⟩ | ⟨c, _, ⟨o, ho, he⟩, hf, rfl⟩⟩
    · obtain ⟨x, rfl, -⟩ := (exact o).mp ⟨hP, ho⟩
      cases he
    · obtain ⟨x, rfl, hx⟩ := (exact o).mp ⟨hP, ho⟩
      cases he
      obtain rfl := Except.ok.inj ((kept x).symm.trans hf)
      exact ⟨f x, rfl, (spelled _).mpr ⟨x, rfl, hx⟩⟩
  · rintro ⟨c, rfl, hc⟩
    obtain ⟨x, rfl, hx⟩ := (spelled c).mp hc
    obtain ⟨hP, ho⟩ := (exact (some x)).mpr ⟨x, rfl, hx⟩
    exact ⟨hP, .inr ⟨g x, f x, ⟨some x, ho, rfl⟩, kept x, rfl⟩⟩

theorem toFixed_traitMap_eq_ok_iff {access : Access} {xs : List (ShapeId × Value)} {c : Content} :
    (Content.traitMap access xs).toFixed = .ok c ↔ ∃ fs, c = .traitMap .readOnly fs ∧
      List.Forall₂ (fun x f => f.1 = x.1 ∧ x.2.HasFixed f.2) xs fs := by
  simp only [Content.toFixed, Fault.bind_eq_ok_iff, Fault.mapM_eq_ok_iff, Fault.pure_eq_ok_iff]
  have pair : ∀ (x f : ShapeId × Value),
      (∃ v, x.2.toFixed = .ok v ∧ (x.1, v) = f) ↔ f.1 = x.1 ∧ x.2.HasFixed f.2 := by
    rintro ⟨id, v⟩ ⟨id', w⟩
    simp [Value.HasFixed, and_comm, eq_comm]
  simp only [pair]
  constructor
  · rintro ⟨fs, hf, rfl⟩
    exact ⟨fs, rfl, hf⟩
  · rintro ⟨fs, rfl, hf⟩
    exact ⟨fs, hf, rfl⟩

theorem spell_settles_iff {rule : Rule} {es : Entries Value} {fs : List (Token rule × Value)} :
    es.Spell Value.Settles fs ↔ ∃ xs, es.Spell Value.HasPlain xs ∧
      List.Forall₂ (fun x f => f.1 = x.1 ∧ x.2.HasFixed f.2) xs fs := by
  constructor
  · intro h
    induction h with
    | nil => exact ⟨[], .nil, .nil⟩
    | @cons e f _ _ he _ ih =>
      obtain ⟨hk, ha, hs⟩ := he
      obtain ⟨p, hp, hf⟩ := Value.settles_iff.mp hs
      obtain ⟨xs, hxs, hfs⟩ := ih
      exact ⟨(f.1, p) :: xs, .cons ⟨hk, ha, hp⟩ hxs, .cons ⟨rfl, hf⟩ hfs⟩
  · rintro ⟨xs, hxs, hfs⟩
    refine (hxs.comp hfs).imp ?_
    rintro e f ⟨x, ⟨hk, ha, hp⟩, hid, hf⟩
    rw [hid]
    exact ⟨hk, ha, Value.settles_iff.mpr ⟨x.2, hp, hf⟩⟩

theorem settled_exact [Visiting] {kind : ContentKind} {value plain : Value} {found : Option Content}
    (hp : value.HasPlain plain) :
    Check.ofKind kind plain = [] ∧ (settled kind value).Yields found ↔
      ∃ c, found = some c ∧ c.SpelledBy kind value := by
  cases kind with
  | text =>
    refine settled_exact_of_map (S := fun s => value = .str s) (r := pure value.str?)
      (g := .text) (f := .text) (map_pure ..).symm (fun _ => rfl) (fun o => ?_) fun c => ?_
    · rw [Traced.yields_pure_iff]
      constructor
      · rintro ⟨hc, rfl⟩
        obtain ⟨s, rfl⟩ := Check.string_eq_nil_iff.mp hc
        obtain rfl := Value.hasPlain_scalar_iff.mp hp
        exact ⟨s, rfl, rfl⟩
      · rintro ⟨s, rfl, rfl⟩
        cases hp
        exact ⟨Check.string_eq_nil_iff.mpr ⟨s, rfl⟩, rfl⟩
    · exact ⟨fun | .text s => ⟨s, rfl, rfl⟩, fun ⟨s, hc, hv⟩ => hc ▸ hv ▸ .text s⟩
  | reference =>
    refine settled_exact_of_map (r := reference value) (g := .reference) (f := .reference) rfl
      (fun _ => rfl) (fun _ => reference_exact hp) fun c => ?_
    exact ⟨fun | .reference h => ⟨_, rfl, h⟩, fun ⟨_, hc, h⟩ => hc ▸ .reference h⟩
  | member =>
    refine settled_exact_of_map (r := member value) (g := .member) (f := .member) rfl (fun _ => rfl)
      (fun _ => member_exact hp) fun c => ?_
    exact ⟨fun | .member h => ⟨_, rfl, h⟩, fun ⟨_, hc, h⟩ => hc ▸ .member h⟩
  | references =>
    refine settled_exact_of_map (r := references value) (g := .references) (f := .references) rfl
      (fun _ => rfl) (fun _ => references_exact hp) fun c => ?_
    exact ⟨fun | .references h => ⟨_, rfl, h⟩, fun ⟨_, hc, h⟩ => hc ▸ .references h⟩
  | referenceMap =>
    refine settled_exact_of_map (r := referenceMap value) (g := .referenceMap .writable)
      (f := .referenceMap .readOnly) rfl (fun _ => rfl) (fun _ => referenceMap_exact hp) fun c => ?_
    exact ⟨fun | .referenceMap hm h => ⟨_, rfl, _, hm, h⟩,
      fun ⟨_, hc, _, hm, h⟩ => hc ▸ .referenceMap hm h⟩
  | memberMap policy =>
    refine settled_exact_of_map (r := memberMap policy value) (g := .memberMap .writable)
      (f := .memberMap .readOnly) rfl (fun _ => rfl) (fun _ => memberMap_exact hp) fun c => ?_
    exact ⟨fun | .memberMap hl ha h => ⟨_, rfl, _, hl, ha, h⟩,
      fun ⟨_, hc, _, hl, ha, h⟩ => hc ▸ .memberMap hl ha h⟩
  | traitMap =>
    -- The one content in which there is something to be fixed.
    have read : content .traitMap value = Option.map (.traitMap .writable) <$> traitMap value := rfl
    simp only [settled_yields_iff, read, Traced.yields_map_iff]
    constructor
    · rintro ⟨hc, ⟨⟨o, ho, he⟩, -⟩ | ⟨c, f, ⟨o, ho, he⟩, hf, rfl⟩⟩
      · obtain ⟨xs, rfl, -⟩ := (traitMap_exact hp).mp ⟨hc, ho⟩
        cases he
      · obtain ⟨xs, rfl, es, hm, hs⟩ := (traitMap_exact hp).mp ⟨hc, ho⟩
        cases he
        obtain ⟨fs, rfl, hfs⟩ := toFixed_traitMap_eq_ok_iff.mp hf
        exact ⟨_, rfl, .traitMap hm (spell_settles_iff.mpr ⟨xs, hs, hfs⟩)⟩
    · rintro ⟨c, rfl, hc⟩
      cases hc with
      | traitMap hm h =>
        obtain ⟨xs, hs, hfs⟩ := spell_settles_iff.mp h
        obtain ⟨hc, ho⟩ := (traitMap_exact hp).mpr ⟨xs, rfl, _, hm, hs⟩
        exact ⟨hc, .inr ⟨_, _, ⟨_, ho, rfl⟩, toFixed_traitMap_eq_ok_iff.mpr ⟨_, rfl, hfs⟩, rfl⟩⟩
  | identifierMap =>
    refine settled_exact_of_map (r := identifierMap value) (g := .identifierMap .writable)
      (f := .identifierMap .readOnly) rfl (fun _ => rfl) (fun _ => identifierMap_exact hp)
      fun c => ?_
    exact ⟨fun | .identifierMap hm h => ⟨_, rfl, _, hm, h⟩,
      fun ⟨_, hc, _, hm, h⟩ => hc ▸ .identifierMap hm h⟩

end ServiceModel.Reading
