import ServiceModel.Proofs.Document.Acceptance

/-!
# Invariants of accepted shapes and models

A valid shape lacks nothing it needs: no required field, no element of a list or a map of
references. Every token in it is one that its rule accepts, the names of its members are admitted,
its mappings are read-only and the values of its traits are fixed all the way down. Whatever is
accepted is valid.
-/
namespace ServiceModel

def Reference.Valid (reference : Reference) : Prop := reference.target.Accepted

structure Member.Valid (member : Member) : Prop where
  reference : member.reference.Valid
  traits : ∀ t ∈ member.traits, t.1.Accepted ∧ t.2.isFixed = true

/-- None of the references is missing, and each is valid. -/
def Reference.AllValid (references : List (Option Reference)) : Prop :=
  ∀ o ∈ references, ∃ r : Reference, o = some r ∧ r.Valid

def Content.Valid : Content → ContentKind → Prop
  | .text _, .text => True
  | .reference r, .reference => r.Valid
  | .member m, .member => m.Valid
  | .references rs, .references => Reference.AllValid rs
  | .referenceMap .readOnly es, .referenceMap => Reference.AllValid (es.map (·.2))
  | .memberMap .readOnly es, .memberMap policy =>
    (∀ e ∈ es, ∃ name m, e = (.identifier name, some m) ∧ name.Accepted ∧ m.Valid) ∧
      MemberNames.Admits policy (es.map (·.1.text))
  | .traitMap .readOnly es, .traitMap => ∀ e ∈ es, e.1.Accepted ∧ e.2.isFixed = true
  | .identifierMap .readOnly es, .identifierMap => ∀ e ∈ es, e.1.Accepted ∧ e.2.Accepted
  | _, _ => False

structure Shape.Valid (shape : Shape) : Prop where
  mixins : Reference.AllValid shape.mixins
  allowed : shape.type.allowsMixins = false → shape.mixins = []
  required : ∀ field ∈ shape.type.fields, field.required = true →
    ∃ c, shape.field? field.name = some c
  contents : ∀ field ∈ shape.type.fields, ∀ c, shape.field? field.name = some c →
    c.Valid field.kind
  /-- There are contents of fields of the table only, in the order of the table. -/
  ordered : shape.fields = shape.type.fields.filterMap fun field =>
    (shape.field? field.name).map fun content => (field.name, content)

structure Model.Valid (model : Model) : Prop where
  metadata : ∀ e ∈ model.metadata, e.1.IsText ∧ e.2.isFixed = true
  shapes : ∀ x ∈ model.shapes, x.1.Accepted ∧ x.2.Valid
  apart : (model.shapes.map (·.1.text)).Nodup

/-! What spells something valid is read as something valid. -/

theorem Entries.Spell.valid {rule : Rule} {es : Entries Value} {traits : List (Token rule × Value)}
    (h : es.Spell Value.Settles traits) : ∀ t ∈ traits, t.1.Accepted ∧ t.2.isFixed = true := by
  intro t ht
  obtain ⟨e, -, -, ha, hs⟩ := h.exists_of_mem_right ht
  exact ⟨ha, hs.1⟩

theorem Reference.SpelledBy.valid {reference : Reference} {value : Value}
    (h : reference.SpelledBy value) : reference.Valid := by
  obtain ⟨es, -, hs⟩ := h
  exact hs.accepted

theorem Reference.Listed.valid {references : List (Option Reference)} {value : Value}
    (h : Reference.Listed references value) : Reference.AllValid references := by
  obtain ⟨items, -, hs⟩ := h
  intro o ho
  obtain ⟨item, -, r, hr, hspelled⟩ := hs.exists_of_mem_right ho
  exact ⟨r, hr, hspelled.valid⟩

theorem Member.SpelledBy.valid {member : Member} {value : Value} (h : member.SpelledBy value) :
    member.Valid := by
  obtain ⟨es, -, hs⟩ := h
  refine ⟨hs.accepted, ?_⟩
  obtain ⟨reference, traits⟩ := member
  cases hs.traits with
  | absent => simp
  | present _ _ ht => exact ht.valid

theorem Content.SpelledBy.valid {content : Content} {kind : ContentKind} {value : Value}
    (h : content.SpelledBy kind value) : content.Valid kind := by
  cases h with
  | text => trivial
  | reference h => exact h.valid
  | member h => exact h.valid
  | references h => exact h.valid
  | referenceMap _ h =>
    intro o ho
    obtain ⟨x, hx, rfl⟩ := List.mem_map.mp ho
    obtain ⟨e, -, -, r, hr, hs⟩ := h.exists_of_mem_right hx
    exact ⟨r, hr, hs.valid⟩
  | memberMap _ ha h =>
    refine ⟨fun x hx => ?_, ha⟩
    obtain ⟨e, -, name, m, -, rfl, hm⟩ := h.exists_of_mem_right hx
    have hn := ha.identifiers name (List.mem_map_of_mem (f := fun x => x.1.text) hx)
    exact ⟨⟨name⟩, m, rfl, Token.accepted_iff.mpr hn, hm.valid⟩
  | traitMap _ h => exact h.valid
  | identifierMap _ h =>
    intro x hx
    obtain ⟨e, -, -, ha, -, hname⟩ := h.exists_of_mem_right hx
    exact ⟨ha, hname⟩

theorem Shape.SpelledIn.valid {shape : Shape} {es : Entries Value} (h : shape.SpelledIn es) :
    shape.Valid := by
  refine ⟨?_, fun ha => ?_, fun field hf hr => ?_, fun field hf c hc => ?_, h.ordered⟩
  · obtain ⟨type, mixins, fields⟩ := shape
    cases h.mixins with
    | absent => exact fun _ ho => nomatch ho
    | present _ hl => exact hl.valid
  · cases hm : es.field? "mixins" with
    | none =>
      obtain ⟨type, mixins, fields⟩ := shape
      cases h.mixins with
      | absent => rfl
      | present hv _ =>
        rw [hm] at hv
        cases hv
    | some v =>
      obtain ⟨name, hn, hname⟩ := h.known _ (Entries.mem_of_field? hm)
      cases hname
      rw [ShapeType.allowsMixins_of_mem_names hn] at ha
      cases ha
  · obtain ⟨v, hv⟩ := (h.fields field hf).value_of_required hr
    obtain ⟨c, hc, -⟩ := (h.fields field hf).content hv
    exact ⟨c, hc⟩
  · have hs := h.fields field hf
    rw [hc] at hs
    cases hs with
    | present _ hcv => exact hcv.valid

theorem Model.SpelledIn.valid {model : Model} {es : Entries Value} (h : model.SpelledIn es) :
    model.Valid := by
  obtain ⟨definitions, -, hd, hs⟩ := Validation.shapesSpelledIn_iff.mp h.shapes
  refine ⟨?_, fun x hx => ?_, ?_⟩
  · obtain ⟨version, metadata, shapes⟩ := model
    cases h.metadata with
    | absent => exact fun _ he => nomatch he
    | present _ hs ht =>
      have hf := Value.isFixed_frozen_iff.mp hs.1
      exact fun e he => ⟨ht e he, hf e he⟩
  · obtain ⟨e, -, -, ha, -, es, -, hshape⟩ := hs.exists_of_mem_right hx
    exact ⟨ha, hshape.valid⟩
  · have keys : definitions.map (·.1) = (model.shapes.map (·.1.text)).map .str := by
      rw [List.map_map, ← List.forall₂_eq_eq_eq, List.forall₂_map_left_iff,
        List.forall₂_map_right_iff]
      exact hs.imp fun e x h => h.1
    rw [keys] at hd
    exact Entries.distinct_texts_iff.mp hd

/-- Every accepted shape has the type that its definition names and is valid, and so is every
accepted model, whatever the settings. -/
theorem valid_of_accepted [Visiting] :
    (∀ (node : Value) (path : Path) (shape : Shape),
      (Shape.parse node path).outcome = .ok (some shape) →
        (∃ entries, node.entries? = .ok (some entries) ∧
          entries.field? "type" = some (.str shape.type.tag)) ∧ shape.Valid) ∧
    ∀ (arrival : Schedule) (settings : Settings) (document : Value) (model : Model)
      (issues : List Issue),
      (validateWith arrival settings document).outcome = .ok ⟨some model, issues⟩ →
        model.Valid := by
  constructor
  · intro node path shape h
    obtain ⟨-, es, hm, hs⟩ := Shape.spelled_of_parse h
    exact ⟨⟨es, hm.entries?_eq, hs.type⟩, hs.valid⟩
  · intro arrival settings document model issues h
    obtain ⟨-, entries, -, hm⟩ := validateWith_accepts_iff.mp h
    exact hm.valid

open scoped Visiting in
/-- A union whose members are listed as pairs, and a document with a list in its metadata. -/
theorem valid_of_accepted_union :
    Shape.Valid ⟨.union, [], [("members", .memberMap .readOnly [(.identifier ⟨"x"⟩,
      some ⟨⟨⟨"a#B"⟩⟩, [(⟨"a#t"⟩, .frozen [(.int 1, .tuple [])])]⟩)])]⟩ ∧
    Model.Valid ⟨"2.0", [(.str "k", .tuple [.null])], [(⟨"a#B"⟩, ⟨.simple .blob, [], []⟩)]⟩ :=
  ⟨(valid_of_accepted.1 (.map [(.str "type", .str "union"), (.str "members", .pairs [.tuple
      [.str "x", .map [(.str "target", .str "a#B"), (.str "traits", .map [(.str "a#t",
        .map [(.int 1, .list [])])])]]])]) [] _ rfl).2,
    valid_of_accepted.2 .inOrder .standard
      (.map [(.str "smithy", .str "2.0"), (.str "metadata", .map [(.str "k", .list [.null])]),
        (.str "shapes", .map [(.str "a#B", .map [(.str "type", .str "blob")])])]) _ [] rfl⟩

end ServiceModel
