import ServiceModel.Proofs.Shape.Agreement
import ServiceModel.Proofs.Shape.Ends
import ServiceModel.Proofs.Shape.Steady

/-!
# Definitions that are read in another order

A definition and a reordering of it are read side by side. Both readings end. They find issues of
the same kinds at the same paths, in some order, and what they make of the two agrees.
-/
namespace ServiceModel

namespace Reading
open Traced

/-- Both readings end, with results that are related, and find issues with the same marks. -/
structure Matched {α β : Type} (S : α → β → Prop) (m : Reading α) (m' : Reading β) : Prop where
  results : ∃ a b, m.outcome = .ok a ∧ m'.outcome = .ok b ∧ S a b
  marks : (Issue.marks m.trace).Perm (Issue.marks m'.trace)

namespace Matched
variable {α β γ δ : Type} {S : α → β → Prop} {T : γ → δ → Prop} {m : Reading α} {m' : Reading β}

theorem pure {a : α} {b : β} (h : S a b) : Matched S (Pure.pure a) (Pure.pure b) :=
  ⟨⟨a, b, rfl, rfl, h⟩, .refl []⟩

theorem same {m : Reading α} (h : m.Ends) : Matched Eq m m := by
  obtain ⟨a, ha⟩ := h
  exact ⟨⟨a, a, ha, ha, rfl⟩, .refl _⟩

theorem lift {a : α} {b : β} {o : Except Fault α} {o' : Except Fault β} (h : o = .ok a)
    (h' : o' = .ok b) (hS : S a b) : Matched S (Traced.lift o) (Traced.lift o') :=
  ⟨⟨a, b, h, h', hS⟩, .refl []⟩

theorem emit {issues others : List Issue} (h : (Issue.marks issues).Perm (Issue.marks others)) :
    Matched Eq (Traced.emit issues) (Traced.emit others) :=
  ⟨⟨(), (), rfl, rfl, rfl⟩, h⟩

theorem bind_of_outcomes {f : α → Reading γ} {g : β → Reading δ} (h : Matched S m m')
    (hf : ∀ a b, m.outcome = .ok a → m'.outcome = .ok b → S a b → Matched T (f a) (g b)) :
    Matched T (m >>= f) (m' >>= g) := by
  obtain ⟨⟨a, b, ha, hb, hab⟩, hm⟩ := h
  obtain ⟨hresults, hmarks⟩ := hf a b ha hb hab
  rw [bind_of_ok ha, bind_of_ok hb]
  refine ⟨hresults, ?_⟩
  rw [Issue.marks_append, Issue.marks_append]
  exact hm.append hmarks

theorem bind {f : α → Reading γ} {g : β → Reading δ} (h : Matched S m m')
    (hf : ∀ a b, S a b → Matched T (f a) (g b)) : Matched T (m >>= f) (m' >>= g) :=
  h.bind_of_outcomes fun a b _ _ => hf a b

theorem map {f : α → γ} {g : β → δ} (h : Matched S m m') (hT : ∀ a b, S a b → T (f a) (g b)) :
    Matched T (f <$> m) (g <$> m') := by
  rw [map_eq_pure_bind, map_eq_pure_bind]
  exact h.bind fun a b hab => .pure (hT a b hab)

theorem rel {m m' : Reading (Option α)} (h : Matched Eq m m') : Matched (Option.Rel Eq) m m' := by
  obtain ⟨⟨o, o', ho, ho', hoo'⟩, hm⟩ := h
  exact ⟨⟨o, o', ho, ho', .of_eq (fun _ => rfl) hoo'⟩, hm⟩

theorem within (h : Matched S m m') (path : Path) :
    Matched S (Reading.within path m) (Reading.within path m') := by
  refine ⟨h.results, ?_⟩
  change (Issue.marks (m.trace.map _)).Perm (Issue.marks (m'.trace.map _))
  rw [Issue.marks_under, Issue.marks_under]
  exact h.marks.map _

/-- Items that correspond in order are read side by side. -/
theorem each_forall₂ {R : γ → δ → Prop} {xs : List γ} {ys : List δ} {f : γ → Reading α}
    {g : δ → Reading β} (h : List.Forall₂ R xs ys) (hR : ∀ x y, R x y → Matched S (f x) (g y)) :
    Matched (List.Forall₂ S) (each f xs) (each g ys) := by
  induction h with
  | nil => exact .pure .nil
  | cons hxy _ ih =>
    rw [each_cons, each_cons]
    exact (hR _ _ hxy).bind fun _ _ hab => ih.bind fun _ _ hrest => .pure (.cons hab hrest)

/-- Items in another order are read with the same results in that order. -/
theorem each_perm {xs ys : List γ} {f : γ → Reading α} (h : xs.Perm ys)
    (hf : ∀ x ∈ xs, (f x).Ends) : Matched List.Perm (each f xs) (each f ys) := by
  have hg : ∀ y ∈ ys, (f y).Ends := fun y hy => hf y (h.mem_iff.mpr hy)
  obtain ⟨bs, hbs⟩ := ends_each_iff.mpr hg
  obtain ⟨as, has, hp⟩ := List.perm_comp_forall₂ h (outcome_each_eq_ok_iff.mp hbs)
  refine ⟨⟨as, bs, outcome_each_eq_ok_iff.mpr has, hbs, hp⟩, ?_⟩
  rw [trace_each hf, trace_each hg]
  exact (h.flatMap_right _).map _

theorem each_rearranged {R : γ → δ → Prop} {xs : List γ} {ys : List δ} {f : γ → Reading α}
    {g : δ → Reading β} (h : List.Rearranged R xs ys)
    (hR : ∀ x y, R x y → Matched S (f x) (g y)) :
    Matched (List.Rearranged S) (each f xs) (each g ys) := by
  obtain ⟨zs, hxz, hz⟩ := h
  obtain ⟨⟨as, cs, has, hcs, hac⟩, hm⟩ := each_forall₂ hxz hR
  obtain ⟨⟨_, bs, hcs', hbs, hcb⟩, hm'⟩ := each_perm (f := g) hz (ends_each_iff.mp ⟨cs, hcs⟩)
  obtain rfl := Except.ok.inj (hcs.symm.trans hcs')
  exact ⟨⟨as, bs, has, hbs, cs, hac, hcb⟩, hm.trans hm'⟩

end Matched

section
open Value
variable {v w : Value} {es fs : Entries Value}

theorem tokenOfText_reordered (rule : Rule) (h : v.Reordered w) :
    tokenOfText rule v = tokenOfText rule w :=
  h.congr (fun _ _ => ⟨rfl, rfl⟩) (fun _ _ => ⟨rfl, rfl⟩) fun _ _ => rfl

theorem entries_matched {α β : Type} {S : α → β → Prop} {f : Option (Entries Value) → Reading α}
    {g : Option (Entries Value) → Reading β} (h : v.Shuffled w)
    (hnone : Matched S (f none) (g none))
    (hsome : ∀ es fs, Entries.distinct (es.map (·.1)) = true →
      Entries.Rearranged Shuffled es fs → Matched S (f (some es)) (g (some fs))) :
    Matched S (lift v.entries? >>= f) (lift w.entries? >>= g) := by
  cases h.read with
  | @mapping es fs hv hw hd hef =>
    rw [hv.entries?_eq, hw.entries?_eq, lift_ok, lift_ok, pure_bind, pure_bind]
    exact hsome es fs hd hef
  | other hv hw =>
    rw [entries?_eq_ok_none_iff.mpr hv, entries?_eq_ok_none_iff.mpr hw, lift_ok, pure_bind,
      pure_bind]
    exact hnone

theorem reference_matched (h : v.Shuffled w) : Matched Eq (reference v) (reference w) := by
  refine entries_matched h (.pure rfl) fun es fs hd hef => ?_
  have target := shuffled_field hd hef "target" (shuffled_scalar .null)
  dsimp only
  rw [tokenOfText_reordered .absoluteId target.reordered]
  exact .same (ends_bind (ends_relabel_iff.mpr (tokenOfText_ends _ _)) fun _ _ => ends_pure _)

theorem memberTrait_matched (key : Key) (h : v.Shuffled w) :
    Matched (Option.Rel fun x y => x.1 = y.1 ∧ x.2.Agrees y.2) (memberTrait key v)
      (memberTrait key w) := by
  refine (Matched.same (ends_relabel_iff.mpr (token_ends _ _))).bind fun id _ hid => ?_
  subst hid
  cases id with
  | none => exact .pure .none
  | some id =>
    obtain ⟨p, q, hp, hq, hpq⟩ := h.exists_plain
    obtain ⟨f, g, hf, hg, hfg⟩ := hpq.exists_fixed (isPlain_of_hasPlain hp)
    refine (Matched.lift (S := fun a b => a = p ∧ b = q) hp hq ⟨rfl, rfl⟩).bind ?_
    rintro _ _ ⟨rfl, rfl⟩
    exact (Matched.lift hf hg hfg).bind fun _ _ hab => .pure (.some ⟨rfl, hab.agrees⟩)

theorem memberTraits_matched (hd : Entries.distinct (es.map (·.1)) = true)
    (h : Entries.Rearranged Shuffled es fs) :
    Matched (List.RearrangedUnder Value.Agrees) (memberTraits es) (memberTraits fs) := by
  have traits := shuffled_field hd h "traits" shuffled_empty
  refine entries_matched traits (.pure List.Forall₂.nil.rearranged) fun ts us _ htu => ?_
  refine (Matched.each_rearranged htu fun e f hef => ?_).bind fun _ _ hfound =>
    .pure (hfound.filterMap fun _ _ h => h)
  rw [hef.1]
  exact memberTrait_matched f.1 hef.2

theorem member_matched (h : v.Shuffled w) :
    Matched (Option.Rel Member.Agrees) (member v) (member w) := by
  refine (reference_matched h).bind fun r _ hr => ?_
  subst hr
  refine entries_matched h (.pure .none) fun es fs hd hef => ?_
  refine (memberTraits_matched hd hef).bind fun _ _ htraits => .pure ?_
  cases r with
  | none => exact .none
  | some r => exact .some ⟨rfl, htraits⟩

theorem references_matched (h : v.Shuffled w) : Matched Eq (references v) (references w) := by
  have items : ∀ {xs ys : List Value}, List.Forall₂ Shuffled xs ys →
      Matched Eq (references (.list xs)) (references (.list ys)) := by
    intro xs ys hxy
    refine (Matched.each_forall₂ (S := Eq) (hxy.zipIdx 0) fun x y hxy => ?_).bind
      fun _ _ hfound => .pure (congrArg some ?_)
    · rw [hxy.2]
      exact (reference_matched hxy.1).within _
    · rwa [List.forall₂_eq_eq_eq] at hfound
  cases v with
  | scalar s =>
    cases h.reordered
    exact .pure rfl
  | list xs =>
    obtain ⟨ys, rfl, hxy⟩ := shuffled_list_iff.mp h
    exact items hxy
  | tuple xs =>
    obtain ⟨ys, rfl, hxy⟩ := shuffled_tuple_iff.mp h
    exact items hxy
  | map es =>
    obtain ⟨fs, rfl, -⟩ := shuffled_map_iff.mp h
    exact .pure rfl
  | frozen es =>
    obtain ⟨fs, rfl, -⟩ := shuffled_frozen_iff.mp h
    exact .pure rfl
  | pairs items => cases h.single.pairFree

theorem mapping_matched {α β : Type} {S : α → β → Prop} {entry : Key → Value → Reading (Option α)}
    {entry' : Key → Value → Reading (Option β)} (h : v.Shuffled w)
    (hentry : ∀ key v w, v.Shuffled w → Matched (Option.Rel S) (entry key v) (entry' key w)) :
    Matched (Option.Rel (List.Rearranged S)) (mapping entry v) (mapping entry' w) := by
  refine entries_matched h (.pure .none) fun es fs _ hef => ?_
  refine (Matched.each_rearranged hef fun e f hef => ?_).bind fun _ _ hfound =>
    .pure (.some (hfound.filterMap fun _ _ h => h))
  rw [hef.1]
  exact hentry f.1 e.2 f.2 hef.2

/-- Entries that are read alike are found in another order. -/
theorem mapping_matched_perm {α : Type} {entry : Key → Value → Reading (Option α)}
    (h : v.Shuffled w)
    (hentry : ∀ key v w, v.Shuffled w → Matched Eq (entry key v) (entry key w)) :
    Matched (Option.Rel List.Perm) (mapping entry v) (mapping entry w) := by
  refine entries_matched h (.pure .none) fun es fs _ hef => ?_
  refine (Matched.each_rearranged (S := Eq) hef fun e f hef => ?_).bind fun _ _ hfound =>
    .pure (.some ((List.Rearranged.eq_iff.mp hfound).filterMap id))
  rw [hef.1]
  exact hentry f.1 e.2 f.2 hef.2

theorem referenceMap_matched (h : v.Shuffled w) :
    Matched (Option.Rel List.Perm) (referenceMap v) (referenceMap w) := by
  refine mapping_matched_perm h fun key v w h => ?_
  unfold referenceEntry
  split
  · refine ((reference_matched h).within _).bind fun r _ hr => .pure ?_
    rw [hr]
  · exact .same (ends_bind (ends_emit _) fun _ _ => ends_pure _)

theorem traitMap_matched (h : v.Shuffled w) :
    Matched (Option.Rel (List.RearrangedUnder fun p q =>
      ∃ f g, p.HasFixed f ∧ q.HasFixed g ∧ f.Agrees g)) (traitMap v) (traitMap w) := by
  refine mapping_matched h fun key v w h => ?_
  refine (Matched.same (ends_relabel_iff.mpr (token_ends _ _))).bind fun id _ hid => ?_
  subst hid
  cases id with
  | none => exact .pure .none
  | some id =>
    obtain ⟨p, q, hp, hq, hpq⟩ := h.exists_plain
    obtain ⟨f, g, hf, hg, hfg⟩ := hpq.exists_fixed (isPlain_of_hasPlain hp)
    refine (Matched.lift hp hq (S := fun a b => a = p ∧ b = q) ⟨rfl, rfl⟩).bind ?_
    rintro _ _ ⟨rfl, rfl⟩
    exact .pure (.some ⟨rfl, f, g, hf, hg, hfg.agrees⟩)

theorem identifierMap_matched (h : v.Shuffled w) :
    Matched (Option.Rel List.Perm) (identifierMap v) (identifierMap w) := by
  refine mapping_matched_perm h fun key v w h => ?_
  unfold identifierEntry
  rw [tokenOfText_reordered .identifier h.reordered]
  refine .same (ends_bind (ends_relabel_iff.mpr (token_ends _ _)) fun id _ => ?_)
  refine ends_bind (ends_relabel_iff.mpr (tokenOfText_ends _ _)) fun name _ => ?_
  cases id <;> cases name <;> exact ends_pure _

/-! A member keeps the key it stands under. -/

theorem key_of_memberEntry {key : Key} {x : MemberName × Option Member}
    (h : (memberEntry key.toValue v).outcome = .ok x) : x.1.key = key := by
  obtain ⟨found, -, h⟩ := outcome_bind_eq_ok_iff.mp h
  obtain ⟨name, hname, h⟩ := outcome_bind_eq_ok_iff.mp h
  obtain rfl := outcome_pure_eq_ok_iff.mp h
  unfold memberName at hname
  cases hp : Token.parse .identifier key.toValue with
  | ok token =>
    rw [hp] at hname
    obtain rfl := outcome_pure_eq_ok_iff.mp hname
    exact (toValue_injective (Token.parse_eq_ok_iff.mp hp).1).symm
  | error refusal =>
    rw [hp, key_toValue, lift_ok] at hname
    obtain rfl := outcome_pure_eq_ok_iff.mp hname
    rfl

theorem foldl_putMember_of_each {xs : List (MemberName × Option Member)}
    (hd : Entries.distinct (es.map (·.1)) = true)
    (h : (each (fun e => memberEntry e.1.toValue e.2) es).outcome = .ok xs) :
    xs.foldl putMember [] = xs := by
  have keys : es.map (·.1) = xs.map (·.1.key) :=
    (outcome_each_eq_ok_iff.mp h).map_eq fun _ _ he => (key_of_memberEntry he).symm
  rw [foldl_putMember [] xs, List.nil_append]
  rw [List.nil_append, ← keys]
  exact (Entries.distinct_iff _).mp hd

theorem memberMap_matched (policy : NamingPolicy) (h : v.Shuffled w) :
    Matched (Option.Rel (List.RearrangedUnder (Option.Rel Member.Agrees))) (memberMap policy v)
      (memberMap policy w) := by
  cases h.read with
  | other hv hw =>
    rw [memberMap_of_not_hasEntries hv, memberMap_of_not_hasEntries hw]
    exact .pure .none
  | @mapping es fs hv hw hd hef =>
    rw [memberMap_of_lists hv.lists, memberMap_of_lists hw.lists]
    have keys : (es.map (·.1.toValue)).Perm (fs.map (·.1.toValue)) :=
      hef.perm_map fun _ _ he => congrArg Key.toValue he.1
    refine (Matched.emit (MemberNames.marks_issues_perm policy keys)).bind fun _ _ _ => ?_
    refine Matched.bind_of_outcomes (S := List.RearrangedUnder (Option.Rel Member.Agrees))
      (.each_rearranged hef fun e f hef => ?_) fun xs ys hxs hys hxy => ?_
    · rw [hef.1]
      refine ((member_matched hef.2).within _).bind fun found found' hfound => ?_
      refine (Matched.same (memberName_ends f.1)).bind fun name _ hname => .pure ?_
      exact ⟨hname, hfound⟩
    · rw [foldl_putMember_of_each hd hxs, foldl_putMember_of_each (hef.distinct hd) hys]
      exact .pure (.some hxy)

/-! Contents of any kind. -/

theorem settle_matched {α : Type} {R : α → α → Prop} {g : α → Content}
    {r r' : Reading (Option α)} (h : Matched (Option.Rel R) r r')
    (hg : ∀ a b, R a b → (g a).Settle (g b)) :
    Matched (Option.Rel Content.Settle) (Option.map g <$> r) (Option.map g <$> r') := by
  refine h.map fun o o' ho => ?_
  cases ho with
  | none => exact .none
  | some hab => exact .some (hg _ _ hab)

theorem settle_traitMap {xs ys : List (ShapeId × Value)} (h : List.RearrangedUnder (fun p q =>
    ∃ f g, p.HasFixed f ∧ q.HasFixed g ∧ f.Agrees g) xs ys) :
    Content.Settle (.traitMap .writable xs) (.traitMap .writable ys) := by
  have fixed : ∀ {xs fs : List (ShapeId × Value)},
      List.Forall₂ (fun x f => x.1 = f.1 ∧ x.2.HasFixed f.2) xs fs →
        (Content.traitMap .writable xs).toFixed = .ok (.traitMap .readOnly fs) := fun h =>
    toFixed_traitMap_eq_ok_iff.mpr ⟨_, rfl, h.imp fun _ _ h => ⟨h.1.symm, h.2⟩⟩
  obtain ⟨as, bs, has, hbs, hab⟩ := List.RearrangedUnder.exists_results h
  exact ⟨_, _, fixed has, fixed hbs, .traitMap hab⟩

theorem content_matched (kind : ContentKind) (h : v.Shuffled w) :
    Matched (Option.Rel Content.Settle) (content kind v) (content kind w) := by
  cases kind with
  | text =>
    rw [content, content, h.reordered.str?_eq]
    cases w.str? with
    | none => exact .pure .none
    | some text => exact .pure (.some ⟨_, _, rfl, rfl, .text text⟩)
  | reference =>
    refine settle_matched (reference_matched h).rel fun r _ hr => ?_
    subst hr
    exact ⟨_, _, rfl, rfl, .reference r⟩
  | member => exact settle_matched (member_matched h) fun _ _ hm => ⟨_, _, rfl, rfl, .member hm⟩
  | references =>
    refine settle_matched (references_matched h).rel fun rs _ hrs => ?_
    subst hrs
    exact ⟨_, _, rfl, rfl, .references rs⟩
  | referenceMap =>
    exact settle_matched (referenceMap_matched h) fun _ _ hxy => ⟨_, _, rfl, rfl, .referenceMap hxy⟩
  | memberMap policy =>
    exact settle_matched (memberMap_matched policy h) fun _ _ hxy =>
      ⟨_, _, rfl, rfl, .memberMap hxy⟩
  | traitMap => exact settle_matched (traitMap_matched h) fun _ _ => settle_traitMap
  | identifierMap =>
    exact settle_matched (identifierMap_matched h) fun _ _ hxy =>
      ⟨_, _, rfl, rfl, .identifierMap hxy⟩

end

end Reading

namespace Draft
open Reading Traced Value

abbrev FieldAgrees (x y : String × Option Content) : Prop :=
  x.1 = y.1 ∧ Option.Rel Content.Agrees x.2 y.2

structure Agrees (draft other : Draft) : Prop where
  type : draft.type = other.type
  mixins : draft.mixins = other.mixins
  fields : List.Forall₂ FieldAgrees draft.fields other.fields

section
variable {es fs : Entries Value} (hd : Entries.distinct (es.map (·.1)) = true)
variable (h : Entries.Rearranged Shuffled es fs)
include hd h

theorem field_matched {α β : Type} {S : α → β → Prop} (name : String)
    {f : Option Value → Reading α} {g : Option Value → Reading β}
    (hnone : Matched S (f none) (g none))
    (hsome : ∀ v w, v.Shuffled w → Matched S (f (some v)) (g (some w))) :
    Matched S (lift (fieldOf? name (.map es)) >>= f) (lift (fieldOf? name (.map fs)) >>= g) := by
  have look : ∀ es : Entries Value, fieldOf? name (.map es) = .ok (es.field? name) := fun _ => rfl
  rw [look, look, lift_ok, lift_ok, pure_bind, pure_bind]
  cases hv : es.field? name with
  | none =>
    rw [h.field?_none hd hv]
    exact hnone
  | some v =>
    obtain ⟨w, hw, hvw⟩ := h.field?_of_left hd hv
    rw [hw]
    exact hsome v w hvw

theorem readMixins_matched (type : ShapeType) :
    Matched Eq (readMixins type (.map es)) (readMixins type (.map fs)) := by
  unfold readMixins
  split
  · refine field_matched hd h "mixins" (.pure rfl) fun v w hvw => ?_
    refine ((references_matched hvw).within _).bind fun _ _ hfound => .pure ?_
    rw [hfound]
  · exact .pure rfl

theorem readField_matched (field : Field) :
    Matched (Option.Rel FieldAgrees) (readField (.map es) field) (readField (.map fs) field) := by
  refine field_matched hd h field.name (.pure .none) fun v w hvw => ?_
  refine ((content_matched field.kind hvw).within _).bind fun c c' hc => ?_
  cases hc with
  | none => exact .pure (.some ⟨rfl, .none⟩)
  | some hc =>
    obtain ⟨f, g, hf, hg, hfg⟩ := hc
    exact (Matched.lift hf hg hfg).bind fun _ _ hfg => .pure (.some ⟨rfl, .some hfg⟩)

theorem read_matched (type : ShapeType) :
    Matched Agrees (read type (.map es)) (read type (.map fs)) := by
  refine (readMixins_matched hd h type).bind fun _ _ hmixins => ?_
  refine Matched.bind (S := List.Forall₂ (Option.Rel FieldAgrees)) (.each_forall₂ (R := Eq)
    (List.forall₂_same.mpr fun _ _ => rfl) fun field _ hfield => ?_) fun _ _ hfields =>
      .pure ⟨rfl, hmixins, List.rel_filterMap (fun {_ _} hxy => hxy) hfields⟩
  exact hfield ▸ readField_matched hd h field

end

theorem Agrees.toShape {draft other : Draft} (h : draft.Agrees other)
    (ha : draft.absent? = none) :
    ∃ shape shape', draft.toShape = .ok shape ∧ other.toShape = .ok shape' ∧
      shape.Agrees shape' := by
  have names : draft.fields.map (·.1) = other.fields.map (·.1) :=
    h.fields.map_eq fun _ _ hxy => hxy.1
  have held : ∀ name, draft.fields.any (·.1 == name) = other.fields.any (·.1 == name) := by
    intro name
    have found := congrArg (List.any · (· == name)) names
    rwa [List.any_map, List.any_map] at found
  have ha' : other.absent? = none := by
    rw [← ha, absent?, absent?, h.type]
    simp only [held]
  unfold Draft.toShape
  rw [ha, ha']
  refine ⟨_, _, rfl, rfl, h.type, h.mixins, List.rel_filterMap (fun {x y} hxy => ?_) h.fields⟩
  obtain ⟨name, c⟩ := x
  obtain ⟨_, c'⟩ := y
  obtain ⟨rfl, hc⟩ := hxy
  cases hc with
  | none => exact .none
  | some hc => exact .some ⟨rfl, hc⟩

/-- The issues of a definition and of its reordering match, and without any both have a shape. -/
theorem finish_matched [Visiting] {type : ShapeType} {es fs : Entries Value} {p q : Value}
    (path : Path)
    (h : Shuffled (.map es) (.map fs)) (hp : HasPlain (.map es) p) (hpq : p.Shuffled q) :
    let finish (es : Entries Value) (plain : Value) := Collector.finish
      ⟨path, (type.structuralIssues plain).map (.under path)⟩ type (.map es)
    Matched (Option.Rel Shape.Agrees) ⟨(finish es p).1.issues, (finish es p).2⟩
      ⟨(finish fs q).1.issues, (finish fs q).2⟩ := by
  intro finish
  obtain ⟨_, hfs, hd, hef⟩ := shuffled_map_iff.mp h
  cases hfs
  obtain ⟨⟨draft, draft', hr, hr', hdraft⟩, trace⟩ := read_matched hd hef type
  have marks : (Issue.marks (finish es p).1.issues).Perm (Issue.marks (finish fs q).1.issues) := by
    have found := (type.marks_structuralIssues_perm hpq).append trace
    have under := found.map fun mark => (mark.1, path ++ mark.2)
    rwa [← Issue.marks_append, ← Issue.marks_append, ← Issue.marks_under, ← Issue.marks_under,
      List.map_append, List.map_append] at under
  refine ⟨?_, marks⟩
  have quiet : (finish es p).1.issues.isEmpty = (finish fs q).1.issues.isEmpty := by
    rw [Bool.eq_iff_iff, List.isEmpty_iff, List.isEmpty_iff, Issue.eq_nil_iff_of_marks marks]
  cases hempty : (finish es p).1.issues.isEmpty with
  | false =>
    refine ⟨none, none, ?_, ?_, .none⟩
    · exact Fault.bind_eq_ok_iff.mpr ⟨draft, hr, if_neg (Bool.eq_false_iff.mp hempty)⟩
    · exact Fault.bind_eq_ok_iff.mpr ⟨draft', hr', if_neg (Bool.eq_false_iff.mp (quiet ▸ hempty))⟩
  | true =>
    obtain ⟨ps, hps, rfl⟩ := hasPlain_map_iff.mp hp
    have clean := List.map_eq_nil_iff.mp (List.append_eq_nil_iff.mp (List.isEmpty_iff.mp hempty)).1
    have absent := absent?_eq_none hps (ShapeType.structuralIssues_eq_nil_iff.mp clean) hr
    obtain ⟨shape, shape', hs, hs', hshape⟩ := hdraft.toShape absent
    refine ⟨some shape, some shape', ?_, ?_, .some hshape⟩
    · exact Fault.bind_eq_ok_iff.mpr ⟨draft, hr, (if_pos hempty).trans
        (Fault.bind_eq_ok_iff.mpr ⟨shape, hs, rfl⟩)⟩
    · exact Fault.bind_eq_ok_iff.mpr ⟨draft', hr', (if_pos (quiet ▸ hempty)).trans
        (Fault.bind_eq_ok_iff.mpr ⟨shape', hs', rfl⟩)⟩

end Draft

namespace Shape
open Reading Traced Value

/-- The same is wrong with the tags of both definitions, or both are known to have the same type. -/
inductive ClassifiedAlike (v w : Value) : Prop
  | refused {issue other : Issue} (hv : classify v = .ok (.error issue))
    (hw : classify w = .ok (.error other)) (h : issue.mark = other.mark) : ClassifiedAlike v w
  | known {type : ShapeType} {es fs : Entries Value} (hv : classify v = .ok (.ok (type, es)))
    (hw : classify w = .ok (.ok (type, fs))) (h : Shuffled (.map es) (.map fs)) :
    ClassifiedAlike v w

theorem classifiedAlike {v w : Value} (h : v.Shuffled w) : ClassifiedAlike v w := by
  cases h.read with
  | other hv hw =>
    exact .refused (classify_of_not_hasEntries hv) (classify_of_not_hasEntries hw) rfl
  | @mapping es fs hv hw hd hef =>
    have hc := classify_of_maps hv
    have hc' := classify_of_maps hw
    cases ht : es.field? "type" with
    | none =>
      rw [ht] at hc
      rw [hef.field?_none hd ht] at hc'
      exact .refused hc hc' rfl
    | some tag =>
      obtain ⟨tag', ht', htag⟩ := hef.field?_of_left hd ht
      have same : ShapeType.ofValue? tag = ShapeType.ofValue? tag' :=
        htag.reordered.congr (fun _ _ => ⟨rfl, rfl⟩) (fun _ _ => ⟨rfl, rfl⟩) fun _ _ => rfl
      rw [ht] at hc
      rw [ht'] at hc'
      dsimp only at hc hc'
      rw [same] at hc
      cases hk : ShapeType.ofValue? tag' with
      | none =>
        rw [hk] at hc hc'
        exact .refused hc hc' rfl
      | some type =>
        rw [hk] at hc hc'
        exact .known hc hc' (shuffled_map_iff.mpr ⟨fs, rfl, hd, hef⟩)

/-- A definition and a reordering of it have issues of the same kinds at the same paths. If there
are none, their shapes agree. -/
theorem parse_matched [Visiting] {v w : Value} (h : v.Shuffled w) {path : Path}
    (hpath : ∀ token ∈ path, ∃ key : Key, token = key.toValue) :
    Matched (Option.Rel Shape.Agrees) (parse v path) (parse w path) := by
  cases classifiedAlike h with
  | refused hv hw hmark =>
    rw [parse_of_refused hv, parse_of_refused hw]
    exact ⟨⟨none, none, rfl, rfl, .none⟩,
      .of_eq (congrArg (fun mark => [mark]) (Issue.mark_under hmark path))⟩
  | @known type es fs hv hw h =>
    obtain ⟨p, q, hp, hq, hpq⟩ := h.exists_plain
    rw [parse_of_classified hv hp (structuralIssuesAt_of_keys type p hpath),
      parse_of_classified hw hq (structuralIssuesAt_of_keys type q hpath)]
    exact Draft.finish_matched path h hp hpq

end Shape

end ServiceModel
