import ServiceModel.Proofs.Shape.Acceptance

/-!
# The language of shape definitions

What a definition has to look like, field by field, said of the definition alone. In a tree without
pair lists these are exactly the definitions that are accepted: what the structural rules leave
open is settled by the readers, and neither refuses more.
-/
namespace ServiceModel

namespace Value

/-- A mapping, changeable or fixed, with these entries. -/
def IsMapping (value : Value) (es : Entries Value) : Prop := value = .map es ∨ value = .frozen es

def IsText (value : Value) : Prop := ∃ text, value = .str text

/-- A text that a rule of the grammar accepts. -/
def IsToken (rule : Rule) (value : Value) : Prop :=
  ∃ text, value = .str text ∧ rule.accepts text.toList = true

end Value

namespace Conforms

def reference (value : Value) : Prop :=
  ∃ es, value.IsMapping es ∧ (∃ t, es.field? "target" = some t ∧ t.IsToken .absoluteId) ∧
    ∀ e ∈ es, e.1 = .str "target"

def member (value : Value) : Prop :=
  ∃ es, value.IsMapping es ∧ (∃ t, es.field? "target" = some t ∧ t.IsToken .absoluteId) ∧
    (∀ t, es.field? "traits" = some t →
      ∃ ts, t.IsMapping ts ∧ ∀ e ∈ ts, e.1.toValue.IsToken .absoluteId) ∧
    ∀ e ∈ es, e.1 = .str "target" ∨ e.1 = .str "traits"

def references (value : Value) : Prop :=
  ∃ items, value.Items items ∧ ∀ item ∈ items, reference item

def referenceMap (value : Value) : Prop :=
  ∃ es, value.IsMapping es ∧ ∀ e ∈ es, e.1.IsText ∧ reference e.2

def memberMap (policy : NamingPolicy) (value : Value) : Prop :=
  ∃ es names, value.IsMapping es ∧ es.map (·.1) = names.map .str ∧
    MemberNames.Admits policy names ∧ ∀ e ∈ es, member e.2

def traitMap (value : Value) : Prop :=
  ∃ es, value.IsMapping es ∧ ∀ e ∈ es, e.1.toValue.IsToken .shapeId

def identifierMap (value : Value) : Prop :=
  ∃ es, value.IsMapping es ∧
    ∀ e ∈ es, e.1.toValue.IsToken .shapeId ∧ e.2.IsToken .identifier

def content : ContentKind → Value → Prop
  | .text => Value.IsText
  | .reference => reference
  | .member => member
  | .references => references
  | .referenceMap => referenceMap
  | .memberMap policy => memberMap policy
  | .traitMap => traitMap
  | .identifierMap => identifierMap

/-- A definition of a type, with fields of the table only, none that is required missing, and each
as its kind asks. -/
structure Fields (type : ShapeType) (es : Entries Value) : Prop where
  tagged : es.field? "type" = some (.str type.tag)
  known : ∀ e ∈ es, e.1 = .str "type" ∨ (e.1 = .str "mixins" ∧ type.allowsMixins = true) ∨
    ∃ field ∈ type.fields, e.1 = .str field.name
  required : ∀ field ∈ type.fields, field.required = true → ∃ v, es.field? field.name = some v
  contents : ∀ field ∈ type.fields, ∀ v, es.field? field.name = some v → content field.kind v
  mixins : ∀ v, es.field? "mixins" = some v → references v

def definition (node : Value) : Prop := ∃ es type, node.IsMapping es ∧ Fields type es

end Conforms

/-! In a tree without pair lists. -/

namespace Value.IsMapping
variable {value : Value} {es : Entries Value}

theorem isPairFree (h : value.IsMapping es) (hv : value.isPairFree = true) :
    ∀ e ∈ es, e.2.isPairFree = true := by
  rcases h with rfl | rfl
  · exact ((everyNode_map_iff es).mp hv).2
  · exact ((everyNode_frozen_iff es).mp hv).2

theorem field (h : value.IsMapping es) (hv : value.isPairFree = true) {name : String} {v : Value}
    (hf : es.field? name = some v) : v.isPairFree = true :=
  h.isPairFree hv _ (Entries.mem_of_field? hf)

theorem maps (h : value.IsMapping es) : value.Maps es := by
  rcases h with rfl | rfl
  · exact .map es
  · exact .frozen es

theorem of_maps (hv : value.isPairFree = true) (h : value.Maps es) : value.IsMapping es := by
  cases h with
  | map => exact .inl rfl
  | frozen => exact .inr rfl
  | empty => cases hv

theorem of_lists (hv : value.isPairFree = true) (h : value.Lists es) : value.IsMapping es := by
  cases h with
  | map => exact .inl rfl
  | frozen => exact .inr rfl
  | pairs => cases hv

end Value.IsMapping

theorem Value.isPairFree_of_items {value : Value} {items : List Value} (h : value.Items items)
    (hv : value.isPairFree = true) : ∀ item ∈ items, item.isPairFree = true := by
  cases h with
  | list => exact ((Value.everyNode_list_iff items).mp hv).2
  | tuple => exact ((Value.everyNode_tuple_iff items).mp hv).2

/-! What conforms can be read, and what can be read conforms. -/

theorem Token.exists_spelledBy_iff {rule : Rule} {value : Value} :
    (∃ token : Token rule, token.SpelledBy value) ↔ value.IsToken rule := by
  constructor
  · rintro ⟨token, rfl, h⟩
    exact ⟨token.text, rfl, Token.accepted_iff.mp h⟩
  · rintro ⟨text, rfl, h⟩
    exact ⟨⟨text⟩, rfl, Token.accepted_iff.mpr h⟩

theorem Entries.exists_spell_iff {rule : Rule} {α : Type} {R : Value → α → Prop}
    {es : Entries Value} : (∃ listed : List (Token rule × α), es.Spell R listed) ↔
      ∀ e ∈ es, e.1.toValue.IsToken rule ∧ ∃ x, R e.2 x := by
  unfold Entries.Spell
  rw [List.Forall₂.exists_iff]
  refine forall₂_congr fun e _ => ⟨?_, ?_⟩
  · rintro ⟨⟨token, x⟩, hk, ha, hR⟩
    exact ⟨Token.exists_spelledBy_iff.mp ⟨token, by rw [hk]; rfl, ha⟩, x, hR⟩
  · rintro ⟨ht, x, hR⟩
    obtain ⟨token, hk, ha⟩ := Token.exists_spelledBy_iff.mpr ht
    exact ⟨(token, x), Value.toValue_injective hk, ha, hR⟩

namespace Conforms
variable {value : Value}

theorem settles_of_isPairFree (h : value.isPairFree = true) : ∃ f, value.Settles f := by
  obtain ⟨p, hp⟩ := Value.exists_hasPlain_of_isPairFree h
  exact Value.exists_settles hp

theorem target_iff {es : Entries Value} : (∃ id : AbsoluteId,
    es.field? "target" = some (.str id.text) ∧ id.Accepted) ↔
      ∃ t, es.field? "target" = some t ∧ t.IsToken .absoluteId := by
  constructor
  · rintro ⟨id, ht, ha⟩
    exact ⟨_, ht, Token.exists_spelledBy_iff.mp ⟨id, rfl, ha⟩⟩
  · rintro ⟨t, ht, htoken⟩
    obtain ⟨id, rfl, ha⟩ := Token.exists_spelledBy_iff.mpr htoken
    exact ⟨id, ht, ha⟩

theorem reference_iff (hv : value.isPairFree = true) :
    (∃ r : Reference, r.SpelledBy value) ↔ reference value := by
  constructor
  · rintro ⟨r, es, hm, h⟩
    exact ⟨es, .of_maps hv hm, target_iff.mp ⟨r.target, h.target, h.accepted⟩, h.known⟩
  · rintro ⟨es, hm, ht, hk⟩
    obtain ⟨id, ht, ha⟩ := target_iff.mpr ht
    exact ⟨⟨id⟩, es, hm.maps, ht, ha, hk⟩

theorem member_iff (hv : value.isPairFree = true) :
    (∃ m : Member, m.SpelledBy value) ↔ member value := by
  constructor
  · rintro ⟨⟨r, traits⟩, es, hm, h⟩
    have hmap := Value.IsMapping.of_maps hv hm
    refine ⟨es, hmap, target_iff.mp ⟨_, h.target, h.accepted⟩, fun t ht => ?_, h.known⟩
    cases h.traits with
    | absent hn =>
      rw [hn] at ht
      cases ht
    | @present v ts _ hv' hts hs =>
      obtain rfl := Option.some.inj (hv'.symm.trans ht)
      have hs := Entries.exists_spell_iff.mp ⟨_, hs⟩
      exact ⟨ts, .of_maps (hmap.field hv ht) hts, fun e he => (hs e he).1⟩
  · rintro ⟨es, hm, ht, hts, hk⟩
    obtain ⟨id, ht, ha⟩ := target_iff.mpr ht
    have traits : ∃ traits, Member.TraitsSpelledIn es traits := by
      cases hf : es.field? "traits" with
      | none => exact ⟨[], .absent hf⟩
      | some t =>
        obtain ⟨ts, hmt, hkeys⟩ := hts t hf
        have values := hmt.isPairFree (hm.field hv hf)
        obtain ⟨traits, hs⟩ := Entries.exists_spell_iff.mpr fun e he =>
          ⟨hkeys e he, settles_of_isPairFree (values e he)⟩
        exact ⟨traits, .present hf hmt.maps hs⟩
    obtain ⟨traits, hs⟩ := traits
    exact ⟨⟨⟨id⟩, traits⟩, es, hm.maps, ht, ha, hs, hk⟩

theorem references_iff (hv : value.isPairFree = true) :
    (∃ rs, Reference.Listed rs value) ↔ references value := by
  have present : ∀ item : Value, (∃ o : Option Reference, ∃ r, o = some r ∧ r.SpelledBy item) ↔
      ∃ r : Reference, r.SpelledBy item := fun item => by simp
  constructor
  · rintro ⟨rs, items, hi, h⟩
    refine ⟨items, hi, fun item hm => ?_⟩
    rw [← reference_iff (Value.isPairFree_of_items hi hv item hm), ← present]
    exact List.Forall₂.exists_iff.mp ⟨rs, h⟩ item hm
  · rintro ⟨items, hi, h⟩
    obtain ⟨rs, hs⟩ := List.Forall₂.exists_iff.mpr fun item hm => (present item).mpr
      ((reference_iff (Value.isPairFree_of_items hi hv item hm)).mpr (h item hm))
    exact ⟨rs, items, hi, hs⟩

theorem memberMap_iff {policy : NamingPolicy} (hv : value.isPairFree = true) :
    (∃ xs es, value.Lists es ∧ MemberNames.Admits policy (xs.map (·.1.text)) ∧
      List.Forall₂ Member.SpelledAt es xs) ↔ memberMap policy value := by
  constructor
  · rintro ⟨xs, es, hl, ha, h⟩
    have hmap := Value.IsMapping.of_lists hv hl
    refine ⟨es, _, hmap, (Reading.keys_of_spelledAt h).1, ha, fun e he => ?_⟩
    obtain ⟨_, -, name, m, -, -, hm⟩ := h.exists_of_mem_left he
    exact (member_iff (hmap.isPairFree hv e he)).mp ⟨m, hm⟩
  · rintro ⟨es, names, hmap, hk, ha, h⟩
    have spelled : ∀ e ∈ es, ∃ x, Member.SpelledAt e x := by
      intro e he
      obtain ⟨name, -, hname⟩ := List.mem_map.mp (hk ▸ List.mem_map_of_mem he)
      obtain ⟨m, hm⟩ := (member_iff (hmap.isPairFree hv e he)).mpr (h e he)
      exact ⟨_, name, m, hname.symm, rfl, hm⟩
    obtain ⟨xs, hs⟩ := List.Forall₂.of_forall_exists spelled
    obtain rfl : xs.map (·.1.text) = names :=
      List.map_injective_iff.mpr (fun a b h => by simpa using h)
        ((Reading.keys_of_spelledAt hs).1.symm.trans hk)
    exact ⟨xs, es, hmap.maps.lists, ha, hs⟩

theorem referenceMap_iff (hv : value.isPairFree = true) :
    (∃ xs es, value.Maps es ∧ List.Forall₂ Reference.SpelledAt es xs) ↔ referenceMap value := by
  constructor
  · rintro ⟨xs, es, hm, h⟩
    have hmap := Value.IsMapping.of_maps hv hm
    refine ⟨es, hmap, fun e he => ?_⟩
    obtain ⟨x, -, hk, r, -, hr⟩ := h.exists_of_mem_left he
    exact ⟨⟨_, hk⟩, (reference_iff (hmap.isPairFree hv e he)).mp ⟨r, hr⟩⟩
  · rintro ⟨es, hmap, h⟩
    have spelled : ∀ e ∈ es, ∃ x, Reference.SpelledAt e x := by
      intro e he
      obtain ⟨⟨name, hk⟩, hr⟩ := h e he
      obtain ⟨r, hr⟩ := (reference_iff (hmap.isPairFree hv e he)).mpr hr
      exact ⟨(name, some r), hk, r, rfl, hr⟩
    obtain ⟨xs, hs⟩ := List.Forall₂.of_forall_exists spelled
    exact ⟨xs, es, hmap.maps, hs⟩

theorem traitMap_iff (hv : value.isPairFree = true) :
    (∃ (xs : List (ShapeId × Value)) (es : _), value.Maps es ∧ es.Spell Value.Settles xs) ↔
      traitMap value := by
  constructor
  · rintro ⟨xs, es, hm, h⟩
    exact ⟨es, .of_maps hv hm, fun e he => (Entries.exists_spell_iff.mp ⟨xs, h⟩ e he).1⟩
  · rintro ⟨es, hmap, h⟩
    obtain ⟨xs, hs⟩ := Entries.exists_spell_iff.mpr fun e he =>
      ⟨h e he, settles_of_isPairFree (hmap.isPairFree hv e he)⟩
    exact ⟨xs, es, hmap.maps, hs⟩

theorem identifierMap_iff (hv : value.isPairFree = true) :
    (∃ (xs : List (ShapeId × Identifier)) (es : _), value.Maps es ∧
      es.Spell (fun v (name : Identifier) => name.SpelledBy v) xs) ↔ identifierMap value := by
  constructor
  · rintro ⟨xs, es, hm, h⟩
    refine ⟨es, .of_maps hv hm, fun e he => ?_⟩
    obtain ⟨hk, hname⟩ := Entries.exists_spell_iff.mp ⟨xs, h⟩ e he
    exact ⟨hk, Token.exists_spelledBy_iff.mp hname⟩
  · rintro ⟨es, hmap, h⟩
    obtain ⟨xs, hs⟩ := Entries.exists_spell_iff
      (R := fun v (name : Identifier) => name.SpelledBy v) |>.mpr fun e he =>
        ⟨(h e he).1, Token.exists_spelledBy_iff.mpr (h e he).2⟩
    exact ⟨xs, es, hmap.maps, hs⟩

theorem content_iff {kind : ContentKind} (hv : value.isPairFree = true) :
    (∃ c : Content, c.SpelledBy kind value) ↔ content kind value := by
  cases kind with
  | text =>
    constructor
    · rintro ⟨c, h⟩
      cases h with
      | text s => exact ⟨s, rfl⟩
    · rintro ⟨s, rfl⟩
      exact ⟨_, .text s⟩
  | reference =>
    rw [content, ← reference_iff hv]
    exact ⟨fun | ⟨_, .reference h⟩ => ⟨_, h⟩, fun ⟨_, h⟩ => ⟨_, .reference h⟩⟩
  | member =>
    rw [content, ← member_iff hv]
    exact ⟨fun | ⟨_, .member h⟩ => ⟨_, h⟩, fun ⟨_, h⟩ => ⟨_, .member h⟩⟩
  | references =>
    rw [content, ← references_iff hv]
    exact ⟨fun | ⟨_, .references h⟩ => ⟨_, h⟩, fun ⟨_, h⟩ => ⟨_, .references h⟩⟩
  | referenceMap =>
    rw [content, ← referenceMap_iff hv]
    exact ⟨fun | ⟨_, .referenceMap hm h⟩ => ⟨_, _, hm, h⟩,
      fun ⟨_, _, hm, h⟩ => ⟨_, .referenceMap hm h⟩⟩
  | memberMap policy =>
    rw [content, ← memberMap_iff hv]
    exact ⟨fun | ⟨_, .memberMap hl ha h⟩ => ⟨_, _, hl, ha, h⟩,
      fun ⟨_, _, hl, ha, h⟩ => ⟨_, .memberMap hl ha h⟩⟩
  | traitMap =>
    rw [content, ← traitMap_iff hv]
    exact ⟨fun | ⟨_, .traitMap hm h⟩ => ⟨_, _, hm, h⟩,
      fun ⟨_, _, hm, h⟩ => ⟨_, .traitMap hm h⟩⟩
  | identifierMap =>
    rw [content, ← identifierMap_iff hv]
    exact ⟨fun | ⟨_, .identifierMap hm h⟩ => ⟨_, _, hm, h⟩,
      fun ⟨_, _, hm, h⟩ => ⟨_, .identifierMap hm h⟩⟩

theorem mem_names_iff {type : ShapeType} {key : Key} :
    (∃ name ∈ type.names, key = .str name) ↔ key = .str "type" ∨
      (key = .str "mixins" ∧ type.allowsMixins = true) ∨
        ∃ field ∈ type.fields, key = .str field.name := by
  cases h : type.allowsMixins <;> simp [ShapeType.names, h]

/-- A definition conforms exactly if it spells a shape. -/
theorem definition_iff {node : Value} (hv : node.isPairFree = true) :
    (∃ shape : Shape, shape.SpelledBy node) ↔ definition node := by
  constructor
  · rintro ⟨shape, es, hm, h⟩
    have hmap := Value.IsMapping.of_maps hv hm
    refine ⟨es, shape.type, hmap, h.type, fun e he => mem_names_iff.mp (h.known e he), ?_, ?_, ?_⟩
    · exact fun field hf hr => (h.fields field hf).value_of_required hr
    · intro field hf v hf'
      obtain ⟨c, -, hc⟩ := (h.fields field hf).content hf'
      exact (content_iff (hmap.field hv hf')).mp ⟨c, hc⟩
    · intro v hf'
      exact (references_iff (hmap.field hv hf')).mp ⟨_, h.mixins.listed hf'⟩
  · rintro ⟨es, type, hmap, h⟩
    have mixins : ∃ mixins, Shape.MixinsSpelledIn es mixins := by
      cases hf : es.field? "mixins" with
      | none => exact ⟨[], .absent hf⟩
      | some v =>
        obtain ⟨rs, hl⟩ := (references_iff (hmap.field hv hf)).mpr (h.mixins v hf)
        exact ⟨rs, .present hf hl⟩
    have fields : ∀ field ∈ type.fields,
        ∃ x : Option (String × Content), ∃ o, x = o.map (fun c => (field.name, c)) ∧
          field.SpelledIn es o := by
      intro field hmem
      cases hf : es.field? field.name with
      | none =>
        refine ⟨_, none, rfl, .absent hf ?_⟩
        by_contra hr
        obtain ⟨v, hv⟩ := h.required field hmem (by simpa using hr)
        rw [hf] at hv
        cases hv
      | some v =>
        obtain ⟨c, hc⟩ := (content_iff (hmap.field hv hf)).mpr (h.contents field hmem v hf)
        exact ⟨_, some c, rfl, .present hf hc⟩
    obtain ⟨mixins, hmixins⟩ := mixins
    obtain ⟨found, hfound⟩ := List.Forall₂.of_forall_exists fields
    exact ⟨_, es, hmap.maps, Shape.spelledIn_of_fields h.tagged
      (fun e he => mem_names_iff.mpr (h.known e he)) hmixins hfound⟩

end Conforms

/-- In a tree without pair lists, a definition is parsed into a shape without any issue, at
whatever path, exactly if it conforms. -/
theorem Shape.parse_accepts_iff_conforms [Visiting] {node : Value} (hv : node.isPairFree = true)
    (path : Path) :
    (∃ shape, Shape.parse node path = ⟨[], .ok (some shape)⟩) ↔ Conforms.definition node := by
  rw [← Conforms.definition_iff hv]
  simp only [Shape.parse_eq_iff, Value.exists_hasPlain_of_isPairFree hv, true_and]

open scoped Visiting in
/-- A list whose member has a trait. -/
theorem Shape.conforms_of_parse_traited_list : Conforms.definition
    (.map [(.str "type", .str "list"), (.str "member", .frozen [(.str "target", .str "a#B"),
      (.str "traits", .map [(.str "a#t", .tuple [.int 1])])])]) :=
  (Shape.parse_accepts_iff_conforms (by decide) []).mp
    ⟨⟨.list, [], [("member", .member ⟨⟨⟨"a#B"⟩⟩, [(⟨"a#t"⟩, .tuple [.int 1])]⟩)]⟩, rfl⟩

end ServiceModel
