import ServiceModel.Proofs.Invariants

/-!
# Writing valid shapes and models

What is valid can be written. What is written is plain, and spells what it was written from.
-/
namespace ServiceModel

theorem Value.isPlain_ofFields {fields : List (String × Value)}
    (h : ∀ f ∈ fields, f.2.isPlain = true) : (Value.ofFields fields).isPlain = true :=
  isPlain_map_iff.mpr (List.forall_mem_map.mpr h)

namespace Reference

theorem isPlain_toNode (reference : Reference) : reference.toNode.isPlain = true := rfl

theorem Valid.spelledBy_toNode {reference : Reference} (h : reference.Valid) :
    reference.SpelledBy reference.toNode :=
  ⟨_, .map _, by simp [Entries.field?_cons], h, by simp⟩

end Reference

namespace Content

theorem referenceNode_eq_ok_iff {found : Option Reference} {node : Value} :
    referenceNode found = .ok node ↔ ∃ r, found = some r ∧ node = r.toNode := by
  cases found <;> simp [referenceNode, eq_comm]

theorem referencesNode_eq_ok_iff {found : List (Option Reference)} {node : Value} :
    referencesNode found = .ok node ↔ ∃ items, node = .list items ∧
      List.Forall₂ (fun o item => ∃ r, o = some r ∧ item = r.toNode) found items := by
  simp only [referencesNode, Fault.bind_eq_ok_iff, Fault.mapM_eq_ok_iff, Fault.pure_eq_ok_iff,
    referenceNode_eq_ok_iff]
  exact ⟨fun ⟨items, h, he⟩ => ⟨items, he.symm, h⟩, fun ⟨items, he, h⟩ => ⟨items, h, he.symm⟩⟩

theorem traitsNode_eq_ok_iff {rule : Rule} {traits : List (Token rule × Value)} {node : Value} :
    traitsNode traits = .ok node ↔ ∃ ts : Entries Value, node = .map ts ∧
      List.Forall₂ (fun t e => e.1 = .str t.1.text ∧ t.2.HasPlain e.2) traits ts := by
  have entry : ∀ (t : Token rule × Value) (e : Key × Value),
      (do return (Key.str t.1.text, ← t.2.toPlain) : Except Fault (Key × Value)) = .ok e ↔
        e.1 = .str t.1.text ∧ t.2.HasPlain e.2 := by
    rintro t ⟨k, v⟩
    simp [Fault.map_eq_ok_iff, Value.HasPlain, and_comm]
  simp only [traitsNode, Fault.bind_eq_ok_iff, Fault.pure_eq_ok_iff]
  constructor
  · rintro ⟨ts, h, rfl⟩
    exact ⟨ts, rfl, (Fault.mapM_eq_ok_iff.mp h).imp fun t e => (entry t e).mp⟩
  · rintro ⟨ts, rfl, h⟩
    exact ⟨ts, Fault.mapM_eq_ok_iff.mpr (h.imp fun t e => (entry t e).mpr), rfl⟩

/-- Writing things under their names, in their order. -/
theorem ofFields_mapM_eq_ok_iff {α : Type} {name : α → String} {write : α → Except Fault Value}
    {xs : List α} {node : Value} :
    (do
      let es ← xs.mapM fun x => do return (name x, ← write x)
      return Value.ofFields es : Except Fault Value) = .ok node ↔
      ∃ es : Entries Value, node = .map es ∧
        List.Forall₂ (fun x e => e.1 = .str (name x) ∧ write x = .ok e.2) xs es := by
  have entry : ∀ (x : α) (e : Key × Value), (e.1 = .str (name x) ∧ write x = .ok e.2) ↔
      ∃ f : String × Value, e = (.str f.1, f.2) ∧
        (do return (name x, ← write x) : Except Fault (String × Value)) = .ok f := by
    rintro x ⟨k, v⟩
    simp [Fault.map_eq_ok_iff]
  simp only [entry, List.Forall₂.image_iff, Fault.bind_eq_ok_iff, Fault.mapM_eq_ok_iff,
    Fault.pure_eq_ok_iff]
  constructor
  · rintro ⟨fs, h, rfl⟩
    exact ⟨_, rfl, fs, rfl, h⟩
  · rintro ⟨_, rfl, fs, rfl, h⟩
    exact ⟨fs, h, rfl⟩

theorem referenceMap_toNode_eq_ok_iff {entries : List (String × Option Reference)} {node : Value} :
    (referenceMap .readOnly entries).toNode = .ok node ↔ ∃ es : Entries Value, node = .map es ∧
      List.Forall₂ (fun x e => e.1 = .str x.1 ∧ ∃ r, x.2 = some r ∧ e.2 = r.toNode) entries es := by
  simp only [← referenceNode_eq_ok_iff]
  exact ofFields_mapM_eq_ok_iff

theorem memberMap_toNode_eq_ok_iff {entries : List (MemberName × Option Member)} {node : Value} :
    (memberMap .readOnly entries).toNode = .ok node ↔ ∃ es : Entries Value, node = .map es ∧
      List.Forall₂ (fun x e => e.1 = .str x.1.text ∧ memberNode x.2 = .ok e.2) entries es :=
  ofFields_mapM_eq_ok_iff

/-! Valid contents. -/

theorem exists_traitsNode {rule : Rule} {traits : List (Token rule × Value)}
    (h : ∀ t ∈ traits, t.1.Accepted ∧ t.2.isFixed = true) :
    ∃ ts : Entries Value, traitsNode traits = .ok (.map ts) ∧ (Value.map ts).isPlain = true ∧
      ts.Spell Value.Settles traits := by
  have each : ∀ t ∈ traits, ∃ e : Key × Value, (e.1 = .str t.1.text ∧ t.1.Accepted ∧
      e.2.Settles t.2) ∧ t.2.HasPlain e.2 := by
    intro t ht
    obtain ⟨ha, hf⟩ := h t ht
    obtain ⟨p, hp, -⟩ := Value.exists_plain_of_isFixed hf
    exact ⟨(.str t.1.text, p),
      ⟨rfl, ha, hf, p, Value.hasPlain_self (Value.isPlain_of_hasPlain hp), hp⟩, hp⟩
  obtain ⟨ts, hts⟩ := List.Forall₂.of_forall_exists each
  refine ⟨ts, ?_, ?_, (hts.imp fun _ _ h => h.1).flip⟩
  · exact traitsNode_eq_ok_iff.mpr ⟨ts, rfl, hts.imp fun _ _ h => ⟨h.1.1, h.2⟩⟩
  · refine Value.isPlain_map_iff.mpr fun e he => ?_
    obtain ⟨t, -, -, hp⟩ := hts.exists_of_mem_right he
    exact Value.isPlain_of_hasPlain hp

theorem exists_referencesNode {references : List (Option Reference)}
    (h : Reference.AllValid references) : ∃ node, referencesNode references = .ok node ∧
      node.isPlain = true ∧ Reference.Listed references node := by
  have each : ∀ o ∈ references, ∃ item, ∃ r : Reference,
      o = some r ∧ item = r.toNode ∧ r.Valid := by
    intro o ho
    obtain ⟨r, hr, hv⟩ := h o ho
    exact ⟨_, r, hr, rfl, hv⟩
  obtain ⟨items, hi⟩ := List.Forall₂.of_forall_exists each
  refine ⟨.list items, ?_, ?_, items, .list items, ?_⟩
  · exact referencesNode_eq_ok_iff.mpr ⟨items, rfl, hi.imp fun _ _ ⟨r, ho, hr, _⟩ => ⟨r, ho, hr⟩⟩
  · refine Value.isPlain_list_iff.mpr fun item hm => ?_
    obtain ⟨_, -, r, -, rfl, -⟩ := hi.exists_of_mem_right hm
    exact r.isPlain_toNode
  · refine (hi.imp ?_).flip
    rintro _ _ ⟨r, ho, rfl, hv⟩
    exact ⟨r, ho, hv.spelledBy_toNode⟩

end Content

theorem Member.toNode_eq {member : Member} {traits : Value}
    (h : Content.traitsNode member.traits = .ok traits) :
    member.toNode = .ok (.ofFields (if member.traits = []
      then [("target", .str member.reference.target.text)]
      else [("target", .str member.reference.target.text), ("traits", traits)])) := by
  simp only [toNode, h, List.isEmpty_iff, bind, Except.bind, pure, Except.pure]
  split <;> rfl

theorem Member.Valid.exists_toNode {member : Member} (h : member.Valid) :
    ∃ node, member.toNode = .ok node ∧ node.isPlain = true ∧ member.SpelledBy node := by
  obtain ⟨ts, hts, hplain, hs⟩ := Content.exists_traitsNode h.traits
  refine ⟨_, toNode_eq hts, ?_⟩
  by_cases he : member.traits = []
  · rw [if_pos he]
    refine ⟨rfl, _, .map _, by simp [Entries.field?_cons], h.reference, ?_, by simp⟩
    rw [he]
    exact .absent rfl
  · rw [if_neg he]
    refine ⟨Value.isPlain_ofFields (by simpa using ⟨rfl, hplain⟩), _, .map _,
      by simp [Entries.field?_cons], h.reference, ?_, by simp⟩
    exact .present (by simp [Entries.field?_cons]) (.map ts) hs

namespace Content

theorem exists_referenceMap_toNode {entries : List (String × Option Reference)}
    (h : Reference.AllValid (entries.map (·.2))) :
    ∃ node, (referenceMap .readOnly entries).toNode = .ok node ∧ node.isPlain = true ∧
      (referenceMap .readOnly entries).SpelledBy .referenceMap node := by
  have each : ∀ x ∈ entries, ∃ e : Key × Value, e.1 = .str x.1 ∧
      ∃ r : Reference, x.2 = some r ∧ e.2 = r.toNode ∧ r.Valid := by
    intro x hx
    obtain ⟨r, hr, hv⟩ := h x.2 (List.mem_map_of_mem hx)
    exact ⟨(.str x.1, r.toNode), rfl, r, hr, rfl, hv⟩
  obtain ⟨es, hes⟩ := List.Forall₂.of_forall_exists each
  refine ⟨.map es, ?_, ?_, .referenceMap (.map es) ?_⟩
  · exact referenceMap_toNode_eq_ok_iff.mpr
      ⟨es, rfl, hes.imp fun _ _ ⟨hk, r, hx, he, _⟩ => ⟨hk, r, hx, he⟩⟩
  · refine Value.isPlain_map_iff.mpr fun e he => ?_
    obtain ⟨_, -, -, r, -, hr, -⟩ := hes.exists_of_mem_right he
    rw [hr]
    exact r.isPlain_toNode
  · refine (hes.imp ?_).flip
    rintro x e ⟨hk, r, hx, he, hv⟩
    exact ⟨hk, r, hx, he ▸ hv.spelledBy_toNode⟩

theorem exists_memberMap_toNode {policy : NamingPolicy}
    {entries : List (MemberName × Option Member)}
    (h : (memberMap .readOnly entries).Valid (.memberMap policy)) :
    ∃ node, (memberMap .readOnly entries).toNode = .ok node ∧ node.isPlain = true ∧
      (memberMap .readOnly entries).SpelledBy (.memberMap policy) node := by
  obtain ⟨hall, ha⟩ := h
  have each : ∀ x ∈ entries, ∃ e : Key × Value, Member.SpelledAt e x ∧ e.1 = .str x.1.text ∧
      memberNode x.2 = .ok e.2 ∧ e.2.isPlain = true := by
    rintro x hx
    obtain ⟨name, m, rfl, -, hm⟩ := hall x hx
    obtain ⟨node, hn, hp, hs⟩ := hm.exists_toNode
    exact ⟨(.str name.text, node), ⟨name.text, m, rfl, rfl, hs⟩, rfl, hn, hp⟩
  obtain ⟨es, hes⟩ := List.Forall₂.of_forall_exists each
  refine ⟨.map es, ?_, ?_, .memberMap (.map es) ha (hes.imp fun _ _ h => h.1).flip⟩
  · exact memberMap_toNode_eq_ok_iff.mpr ⟨es, rfl, hes.imp fun _ _ h => ⟨h.2.1, h.2.2.1⟩⟩
  · refine Value.isPlain_map_iff.mpr fun e he => ?_
    obtain ⟨_, -, -, -, -, hp⟩ := hes.exists_of_mem_right he
    exact hp

theorem Valid.exists_toNode {content : Content} {kind : ContentKind} (h : content.Valid kind) :
    ∃ node, content.toNode = .ok node ∧ node.isPlain = true ∧ content.SpelledBy kind node := by
  revert h
  -- A content is valid only for the kind that it is of, and only once it is read-only.
  fun_cases Content.Valid content kind <;> intro h
  case case1 s => exact ⟨_, rfl, rfl, .text s⟩
  case case2 r => exact ⟨_, rfl, r.isPlain_toNode, .reference (Reference.Valid.spelledBy_toNode h)⟩
  case case3 m =>
    obtain ⟨node, hn, hp, hs⟩ := Member.Valid.exists_toNode h
    exact ⟨node, hn, hp, .member hs⟩
  case case4 rs =>
    obtain ⟨node, hn, hp, hs⟩ := exists_referencesNode h
    exact ⟨node, hn, hp, .references hs⟩
  case case5 es => exact exists_referenceMap_toNode h
  case case6 es policy => exact exists_memberMap_toNode h
  case case7 ts =>
    obtain ⟨es, hn, hp, hs⟩ := exists_traitsNode h
    exact ⟨.map es, hn, hp, .traitMap (.map es) hs⟩
  case case8 es =>
    refine ⟨_, rfl, Value.isPlain_ofFields (List.forall_mem_map.mpr fun _ _ => rfl),
      .identifierMap (.map _) ?_⟩
    rw [List.map_map]
    refine List.forall₂_map_left_iff.mpr (List.forall₂_same.mpr fun x hx => ?_)
    obtain ⟨hk, hn⟩ := h x hx
    exact ⟨rfl, hk, rfl, hn⟩
  case case9 => exact h.elim

end Content

namespace Shape

/-- What stands under a name in the definition that is written. -/
def written (shape : Shape) (name : String) : Option Value :=
  if name = "type" then some (.str shape.type.tag)
  else if name = "mixins" then
    if shape.mixins = [] then none else (Content.referencesNode shape.mixins).toOption
  else (shape.field? name).bind fun content => content.toNode.toOption

theorem written_type (shape : Shape) : shape.written "type" = some (.str shape.type.tag) := rfl

theorem written_mixins (shape : Shape) : shape.written "mixins" =
    if shape.mixins = [] then none else (Content.referencesNode shape.mixins).toOption := rfl

theorem written_field {shape : Shape} {field : Field} (hf : field ∈ shape.type.fields) :
    shape.written field.name =
      (shape.field? field.name).bind fun content => content.toNode.toOption := by
  obtain ⟨ht, hm⟩ := ShapeType.name_ne_of_mem_fields hf
  rw [written, if_neg ht, if_neg hm]

theorem Valid.optional_of_absent {shape : Shape} (h : shape.Valid) {field : Field}
    (hf : field ∈ shape.type.fields) (hn : shape.field? field.name = none) :
    field.required = false := by
  by_contra hr
  obtain ⟨c, hs⟩ := h.required field hf (by simpa using hr)
  rw [hn] at hs
  cases hs

theorem Valid.allowsMixins_of_ne_nil {shape : Shape} (h : shape.Valid) (hne : shape.mixins ≠ []) :
    shape.type.allowsMixins = true := by
  by_contra hn
  exact hne (h.allowed (by simpa using hn))

theorem Valid.fieldNode_eq {shape : Shape} (h : shape.Valid) {field : Field}
    (hf : field ∈ shape.type.fields) : shape.fieldNode field =
      .ok ((shape.written field.name).map fun value => (field.name, value)) := by
  rw [written_field hf, fieldNode]
  cases hc : shape.field? field.name with
  | none => simp [h.optional_of_absent hf hc]
  | some c =>
    obtain ⟨node, hn, -⟩ := (h.contents field hf c hc).exists_toNode
    simp [hn, Except.toOption, pure, Except.pure, bind, Except.bind]

theorem Valid.mixinsNode_eq {shape : Shape} (h : shape.Valid) : shape.mixinsNode =
    .ok ((if shape.type.allowsMixins then ["mixins"] else []).filterMap fun name =>
      (shape.written name).map fun value => (name, value)) := by
  by_cases he : shape.mixins = []
  · cases ha : shape.type.allowsMixins <;> simp [mixinsNode, written_mixins, he]
  · have ha := h.allowsMixins_of_ne_nil he
    obtain ⟨node, hn, -⟩ := Content.exists_referencesNode h.mixins
    simp [mixinsNode, written_mixins, he, ha, hn, Except.toOption, bind, Except.bind, pure,
      Except.pure]

/-- A valid shape is written field by field, in the order of the names of its type. -/
theorem Valid.toNode_eq {shape : Shape} (h : shape.Valid) :
    shape.toNode = .ok (.map (Entries.tabulate shape.type.names shape.written)) := by
  have fields : shape.type.fields.mapM shape.fieldNode = .ok (shape.type.fields.map fun field =>
      (shape.written field.name).map fun value => (field.name, value)) := by
    rw [Fault.mapM_eq_ok_iff, List.forall₂_map_right_iff, List.forall₂_same]
    exact fun field hf => h.fieldNode_eq hf
  simp only [toNode, fields, h.mixinsNode_eq, bind, Except.bind, pure, Except.pure, Except.ok.injEq]
  simp [Value.ofFields, Entries.tabulate, ShapeType.names, written_type, List.filterMap_append,
    List.filterMap_map, List.map_filterMap, Function.comp_def]

theorem Valid.isPlain_written {shape : Shape} (h : shape.Valid) {name : String} {value : Value}
    (hn : name ∈ shape.type.names) (hv : shape.written name = some value) :
    value.isPlain = true := by
  rcases ShapeType.mem_names_iff.mp hn with rfl | ⟨rfl, -⟩ | ⟨field, hf, rfl⟩
  · cases hv
    rfl
  · rw [written_mixins] at hv
    obtain ⟨node, hm, hp, -⟩ := Content.exists_referencesNode h.mixins
    split at hv
    · cases hv
    · rw [hm] at hv
      cases hv
      exact hp
  · rw [written_field hf] at hv
    obtain ⟨c, hc, hv⟩ := Option.bind_eq_some_iff.mp hv
    obtain ⟨node, hm, hp, -⟩ := (h.contents field hf c hc).exists_toNode
    rw [hm] at hv
    cases hv
    exact hp

theorem Valid.mixinsSpelledIn_written {shape : Shape} (h : shape.Valid) :
    MixinsSpelledIn (Entries.tabulate shape.type.names shape.written) shape.mixins := by
  by_cases he : shape.mixins = []
  · rw [he]
    refine .absent (Entries.field?_eq_none_iff.mpr fun e hm hk => ?_)
    obtain ⟨name, -, hname, hw⟩ := Entries.mem_tabulate_iff.mp hm
    obtain rfl : name = "mixins" := by simpa [hk, eq_comm] using hname
    simp [written_mixins, he] at hw
  · have hm : "mixins" ∈ shape.type.names :=
      ShapeType.mem_names_iff.mpr (.inr (.inl ⟨rfl, h.allowsMixins_of_ne_nil he⟩))
    obtain ⟨node, hn, -, hl⟩ := Content.exists_referencesNode h.mixins
    refine .present ((Entries.field?_tabulate hm).trans ?_) hl
    rw [written_mixins, if_neg he, hn]
    rfl

theorem Valid.fieldSpelledIn_written {shape : Shape} (h : shape.Valid) {field : Field}
    (hf : field ∈ shape.type.fields) :
    field.SpelledIn (Entries.tabulate shape.type.names shape.written)
      (shape.field? field.name) := by
  have hn : field.name ∈ shape.type.names :=
    ShapeType.mem_names_iff.mpr (.inr (.inr ⟨field, hf, rfl⟩))
  have lookup : (Entries.tabulate shape.type.names shape.written).field? field.name = _ :=
    (Entries.field?_tabulate hn).trans (written_field hf)
  cases hc : shape.field? field.name with
  | none =>
    rw [hc] at lookup
    exact .absent lookup (h.optional_of_absent hf hc)
  | some c =>
    obtain ⟨node, hm, -, hs⟩ := (h.contents field hf c hc).exists_toNode
    rw [hc, Option.bind_some, hm] at lookup
    exact .present lookup hs

theorem Valid.exists_toNode {shape : Shape} (h : shape.Valid) :
    ∃ node, shape.toNode = .ok node ∧ node.isPlain = true ∧ shape.SpelledBy node := by
  refine ⟨_, h.toNode_eq, ?_, _, .map _, ?_⟩
  · refine Value.isPlain_map_iff.mpr fun e he => ?_
    obtain ⟨name, hn, -, hw⟩ := Entries.mem_tabulate_iff.mp he
    exact h.isPlain_written hn hw
  · refine ⟨?_, fun e he => ?_, h.mixinsSpelledIn_written, fun _ hf => h.fieldSpelledIn_written hf,
      h.ordered⟩
    · exact Entries.field?_tabulate (ShapeType.mem_names_iff.mpr (.inl rfl))
    · obtain ⟨name, hn, hk, -⟩ := Entries.mem_tabulate_iff.mp he
      exact ⟨name, hn, hk⟩

end Shape

namespace Model

theorem shapesNode_eq_ok_iff {shapes : List (AbsoluteId × Shape)} {node : Value} :
    shapesNode shapes = .ok node ↔ ∃ es : Entries Value, node = .map es ∧
      List.Forall₂ (fun x e => e.1 = .str x.1.text ∧ x.2.toNode = .ok e.2) shapes es :=
  Content.ofFields_mapM_eq_ok_iff

theorem toNode_eq {model : Model} {metadata shapes : Value}
    (hm : (Value.frozen model.metadata).HasPlain metadata)
    (hs : shapesNode model.shapes = .ok shapes) :
    model.toNode = .ok (.ofFields (if model.metadata = []
      then [("smithy", .str model.version), ("shapes", shapes)]
      else [("smithy", .str model.version), ("metadata", metadata), ("shapes", shapes)])) := by
  have hm : (Value.frozen model.metadata).toPlain = .ok metadata := hm
  simp only [toNode, hm, hs, List.isEmpty_iff, bind, Except.bind, pure, Except.pure]
  split <;> rfl

theorem spelledBy_of_distinct {model : Model} {es : Entries Value}
    (hd : Entries.distinct (es.map (·.1)) = true) (h : model.SpelledIn es) :
    model.SpelledBy (.map es) :=
  ⟨es, .map es, by rwa [Entries.ofList_of_distinct es hd]⟩

theorem Valid.exists_shapesNode {model : Model} (h : model.Valid) :
    ∃ es : Entries Value, shapesNode model.shapes = .ok (.map es) ∧
      (Value.map es).isPlain = true ∧ Entries.distinct (es.map (·.1)) = true ∧
        es.Spell Defines model.shapes := by
  have each : ∀ x ∈ model.shapes, ∃ e : Key × Value, (e.1 = .str x.1.text ∧ x.1.Accepted ∧
      Defines e.2 x.2) ∧ x.2.toNode = .ok e.2 ∧ e.2.isPlain = true := by
    intro x hx
    obtain ⟨ha, hv⟩ := h.shapes x hx
    obtain ⟨node, hn, hp, hs⟩ := hv.exists_toNode
    exact ⟨(.str x.1.text, node), ⟨rfl, ha, ⟨node, Value.hasPlain_self hp⟩, hs⟩, hn, hp⟩
  obtain ⟨es, hes⟩ := List.Forall₂.of_forall_exists each
  refine ⟨es, ?_, ?_, ?_, (hes.imp fun _ _ h => h.1).flip⟩
  · exact shapesNode_eq_ok_iff.mpr ⟨es, rfl, hes.imp fun _ _ h => ⟨h.1.1, h.2.1⟩⟩
  · refine Value.isPlain_map_iff.mpr fun e he => ?_
    obtain ⟨_, -, -, -, hp⟩ := hes.exists_of_mem_right he
    exact hp
  · have keys : es.map (·.1) = (model.shapes.map (·.1.text)).map .str := by
      rw [List.map_map, ← List.forall₂_eq_eq_eq, List.forall₂_map_left_iff,
        List.forall₂_map_right_iff]
      exact (hes.imp fun _ _ h => h.1.1).flip
    rw [keys]
    exact Entries.distinct_texts_iff.mpr h.apart

theorem Valid.exists_toNode {model : Model} (h : model.Valid) :
    ∃ node, model.toNode = .ok node ∧ node.isPlain = true ∧ model.SpelledBy node := by
  have fixed : (Value.frozen model.metadata).isFixed = true :=
    Value.isFixed_frozen_iff.mpr fun e he => (h.metadata e he).2
  obtain ⟨_, hm, -⟩ := Value.exists_plain_of_isFixed fixed
  obtain ⟨ms, -, rfl⟩ := Value.hasPlain_frozen_iff.mp hm
  obtain ⟨es, hn, hp, hd, hs⟩ := h.exists_shapesNode
  have settles : (Value.map ms).Settles (.frozen model.metadata) :=
    ⟨fixed, _, Value.hasPlain_self (Value.isPlain_of_hasPlain hm), hm⟩
  have texts : ∀ e ∈ model.metadata, e.1.IsText := fun e he => (h.metadata e he).1
  refine ⟨_, toNode_eq hm hn, ?_⟩
  by_cases he : model.metadata = []
  · rw [if_pos he]
    refine ⟨?_, spelledBy_of_distinct rfl ⟨rfl, ?_, .present rfl (.map es) hd hs, by simp⟩⟩
    · exact Value.isPlain_ofFields (by simpa using ⟨rfl, hp⟩)
    · rw [he]
      exact .absent rfl
  · rw [if_neg he]
    refine ⟨?_, spelledBy_of_distinct rfl
      ⟨rfl, .present rfl settles texts, .present rfl (.map es) hd hs, by simp⟩⟩
    exact Value.isPlain_ofFields (by simpa using ⟨rfl, Value.isPlain_of_hasPlain hm, hp⟩)

end Model

end ServiceModel
