import ServiceModel.Proofs.Document.Normal
import ServiceModel.Proofs.Writing

/-!
# Nothing is lost

What is written of an accepted document is the normal form of its plain form: the same document, up
to the order of fields.
-/
namespace ServiceModel

/-! Contents. -/

theorem Reference.SpelledBy.plain_eq {reference : Reference} {v p : Value}
    (h : reference.SpelledBy v) (hw : v.isWellFormed = true) (hp : v.HasPlain p) :
    p = reference.toNode := by
  obtain ⟨es, hm, hs⟩ := h
  obtain ⟨ps, rfl, hps, hd⟩ := hm.exists_plain hw hp
  have known : ∀ e ∈ ps, ∃ name ∈ ["target"], e.1 = .str name := by
    simpa using (hps.forall_keys_iff (· = .str "target")).mp hs.known
  have hf := Value.plain_field_of_text hps hs.target
  have hperm := Entries.perm_tabulate (by decide) hd known
  simp only [Entries.tabulate, List.filterMap_cons, List.filterMap_nil, hf, Option.map_some,
    List.perm_singleton] at hperm
  rw [hperm]
  rfl

namespace Content

theorem referencesNode_of_listed {references : List (Option Reference)} {v p : Value}
    (h : Reference.Listed references v) (hw : v.isWellFormed = true) (hp : v.HasPlain p) :
    referencesNode references = .ok p := by
  obtain ⟨items, hi, hs⟩ := h
  obtain ⟨ps, hps, rfl⟩ := hi.hasPlain_iff.mp hp
  have wf := hi.isWellFormed hw
  refine referencesNode_eq_ok_iff.mpr ⟨ps, rfl, hs.across hps ?_⟩
  rintro item hm o q ⟨r, ho, hr⟩ hq
  exact ⟨r, ho, hr.plain_eq (wf item hm) hq⟩

theorem traitsNode_of_spell {rule : Rule} {traits : List (Token rule × Value)}
    {ts ps : Entries Value} (h : ts.Spell Value.Settles traits)
    (hp : Entries.Pointwise Value.HasPlain ts ps) : traitsNode traits = .ok (.map ps) := by
  refine traitsNode_eq_ok_iff.mpr ⟨ps, rfl, h.across hp ?_⟩
  rintro e - t q ⟨hk, -, -, plain, hplain, hf⟩ ⟨hkey, hq⟩
  obtain rfl := hplain.unique hq
  exact ⟨hkey ▸ hk, hf⟩

end Content

open Value

theorem Member.SpelledBy.exists_same {member : Member} {v p : Value} (h : member.SpelledBy v)
    (hw : v.isWellFormed = true) (hp : v.HasPlain p) :
    ∃ node, member.toNode = .ok node ∧ SameMember node (normalMember p) := by
  obtain ⟨es, hm, hs⟩ := h
  obtain ⟨ps, rfl, hps, hd⟩ := hm.exists_plain hw hp
  have wf := hm.lists.isWellFormed hw
  have target := plain_field_of_text hps hs.target
  have known : ∀ e ∈ ps, ∃ name ∈ ["target", "traits"], e.1 = .str name := by
    simpa using (hps.forall_keys_iff fun k => k = .str "target" ∨ k = .str "traits").mp hs.known
  have written : ∃ qs : Entries Value, Content.traitsNode member.traits = .ok (.map qs) ∧
      ((ps.field? "traits").bind fun v => if v = .map [] then none else some v) =
        if member.traits = [] then none else some (.map qs) := by
    obtain ⟨reference, traits⟩ := member
    cases hs.traits with
    | absent hn => exact ⟨[], rfl, by simp [hps.field?_none hn]⟩
    | @present tv ts _ hv hts hspell =>
      obtain ⟨tp, htp, hplain⟩ := hps.field?_of_left hv
      obtain ⟨qs, hqs, rfl⟩ := hts.hasPlain_iff.mp hplain
      refine ⟨qs, Content.traitsNode_of_spell hspell hqs, ?_⟩
      simp [htp, hspell.flip.eq_nil_iff, hqs.eq_nil_iff]
  obtain ⟨qs, hqs, hfield⟩ := written
  have node : member.toNode = .ok (.map (Entries.tabulate ["target", "traits"] fun name =>
      if name = "target" then some (.str member.reference.target.text)
      else if member.traits = [] then none else some (.map qs))) := by
    rw [toNode_eq hqs]
    split <;> rfl
  refine ⟨_, node, sameFields_revise (by decide) hd known ?_⟩
  rintro name (_ | ⟨_, _ | ⟨_, ⟨⟩⟩⟩)
  · refine .of_eq (fun _ => rfl) ?_
    simp [target]
  · refine .of_eq (fun _ => rfl) ?_
    simpa using hfield.symm

namespace Content

/-- A content that is no member and has no members by name is written as its plain form. -/
theorem SpelledBy.toNode_eq {content : Content} {kind : ContentKind} {v p : Value}
    (h : content.SpelledBy kind v) (hw : v.isWellFormed = true) (hp : v.HasPlain p)
    (hm : kind ≠ .member) (hms : kind.policy? = none) : content.toNode = .ok p := by
  cases h with
  | text s =>
    cases hp
    rfl
  | reference h => exact congrArg Except.ok (h.plain_eq hw hp).symm
  | member => exact absurd rfl hm
  | references h => exact referencesNode_of_listed h hw hp
  | referenceMap hmaps h =>
    obtain ⟨ps, hps, rfl⟩ := hmaps.hasPlain_iff.mp hp
    have wf := hmaps.lists.isWellFormed hw
    refine referenceMap_toNode_eq_ok_iff.mpr ⟨ps, rfl, h.across hps ?_⟩
    rintro e he x q ⟨hk, r, hx, hr⟩ ⟨hkey, hq⟩
    exact ⟨hkey ▸ hk, r, hx, hr.plain_eq (wf e he) hq⟩
  | memberMap => cases hms
  | traitMap hmaps h =>
    obtain ⟨ps, hps, rfl⟩ := hmaps.hasPlain_iff.mp hp
    exact traitsNode_of_spell h hps
  | @identifierMap _ _ xs hmaps h =>
    obtain ⟨ps, hps, rfl⟩ := hmaps.hasPlain_iff.mp hp
    have each : List.Forall₂ (fun q x => q = (.str x.1.text, .str x.2.text)) ps xs := by
      refine hps.across h ?_
      rintro e - q x ⟨hkey, hq⟩ ⟨hk, -, hname, -⟩
      rw [hname] at hq
      exact Prod.ext (hkey ▸ hk) (Except.ok.inj hq).symm
    rw [each.eq_map]
    simp [toNode, ofFields]

theorem exists_same_of_memberMap {policy : NamingPolicy} {v p : Value}
    {xs : List (MemberName × Option Member)}
    (h : (memberMap .readOnly xs).SpelledBy (.memberMap policy) v) (hw : v.isWellFormed = true)
    (hp : v.HasPlain p) : ∃ node, (memberMap .readOnly xs).toNode = .ok node ∧
      SameEntries SameMember node (normalMembers p) := by
  cases h with
  | @memberMap _ _ es _ hl ha h =>
    have hd := ha.distinct
    rw [← (Reading.keys_of_spelledAt h).1] at hd
    obtain ⟨ps, hps, rfl⟩ := (hl.hasPlain_iff hd).mp hp
    have wf := hl.isWellFormed hw
    have each : List.Forall₂ (fun x q => q.1 = .str x.1.text ∧
        ∃ node, memberNode x.2 = .ok node ∧ SameMember node (normalMember q.2)) xs ps := by
      refine h.across hps ?_
      rintro e he x q ⟨name, m, hk, rfl, hm⟩ ⟨hkey, hq⟩
      exact ⟨hkey ▸ hk, hm.exists_same (wf e he) hq⟩
    obtain ⟨ns, hns, hsame⟩ := exists_sameEntries_revise each
    exact ⟨.map ns, memberMap_toNode_eq_ok_iff.mpr ⟨ns, rfl, hns⟩, hsame⟩

theorem SpelledBy.exists_same_field {content : Content} {type : ShapeType} {field : Field}
    {v p : Value} (h : content.SpelledBy field.kind v) (hw : v.isWellFormed = true)
    (hp : v.HasPlain p) (hf : field ∈ type.fields) : ∃ node, content.toNode = .ok node ∧
      SameField (.str field.name) node (normalField (.str field.name) p) := by
  have table := ShapeType.kind_of_mem_fields hf
  cases hk : field.kind <;> simp only [hk] at h table
  case member =>
    cases h with
    | member h =>
      obtain ⟨node, hn, hsame⟩ := h.exists_same hw hp
      exact ⟨node, hn, by simpa [SameField, normalField, table] using hsame⟩
  case memberMap policy =>
    obtain ⟨xs, rfl⟩ : ∃ xs, content = .memberMap .readOnly xs := by
      cases h
      exact ⟨_, rfl⟩
    obtain ⟨node, hn, hsame⟩ := exists_same_of_memberMap h hw hp
    exact ⟨node, hn, by simpa [SameField, normalField, table] using hsame⟩
  all_goals
    refine ⟨p, h.toNode_eq hw hp (by simp) rfl, ?_⟩
    simp [SameField, normalField, table]

end Content

namespace Shape

theorem SpelledIn.written_mixins_eq {shape : Shape} {es ps : Entries Value}
    (h : shape.SpelledIn es) (hw : ∀ e ∈ es, e.2.isWellFormed = true)
    (hp : Entries.Pointwise HasPlain es ps) : shape.written "mixins" =
      (ps.field? "mixins").bind fun v => if v = .list [] then none else some v := by
  obtain ⟨type, mixins, fields⟩ := shape
  rw [written_mixins]
  cases h.mixins with
  | absent hn => simp [hp.field?_none hn]
  | @present v _ hv hl =>
    obtain ⟨p, hf, hplain⟩ := hp.field?_of_left hv
    have written := Content.referencesNode_of_listed hl (hw _ (Entries.mem_of_field? hv)) hplain
    obtain ⟨items, rfl, hitems⟩ := Content.referencesNode_eq_ok_iff.mp written
    simp [hf, written, hitems.eq_nil_iff, Except.toOption]

theorem SpelledIn.sameField_written {shape : Shape} {es ps : Entries Value}
    (h : shape.SpelledIn es) (hw : ∀ e ∈ es, e.2.isWellFormed = true)
    (hp : Entries.Pointwise HasPlain es ps) {field : Field} (hf : field ∈ shape.type.fields) :
    Option.Rel (SameField (.str field.name)) (shape.written field.name)
      ((ps.field? field.name).map (normalField (.str field.name))) := by
  have hs := h.fields field hf
  rw [written_field hf]
  cases hc : shape.field? field.name with
  | none =>
    rw [hc] at hs
    cases hs with
    | absent hn => simp [hp.field?_none hn]
  | some c =>
    rw [hc] at hs
    cases hs with
    | @present v _ hv hspelled =>
      obtain ⟨p, hfp, hplain⟩ := hp.field?_of_left hv
      obtain ⟨node, hn, hsame⟩ :=
        hspelled.exists_same_field (hw _ (Entries.mem_of_field? hv)) hplain hf
      rw [hfp, Option.bind_some, Option.map_some, hn]
      exact .some hsame

theorem SpelledBy.exists_same {shape : Shape} {v p : Value} (h : shape.SpelledBy v)
    (hw : v.isWellFormed = true) (hp : v.HasPlain p) :
    ∃ node, shape.toNode = .ok node ∧ SameDefinition node (normalDefinition p) := by
  obtain ⟨es, hm, hs⟩ := h
  obtain ⟨ps, rfl, hps, hd⟩ := hm.exists_plain hw hp
  have wf := hm.lists.isWellFormed hw
  have known := (hps.forall_keys_iff fun k => ∃ name ∈ shape.type.names, k = .str name).mp hs.known
  refine ⟨_, hs.valid.toNode_eq, sameFields_revise shape.type.nodup_names hd known ?_⟩
  intro name hn
  rcases ShapeType.mem_names_iff.mp hn with rfl | ⟨rfl, -⟩ | ⟨field, hf, rfl⟩
  · refine .of_eq (by simp [SameField]) ?_
    simp [written_type, plain_field_of_text hps hs.type, normalField]
  · refine .of_eq (by simp [SameField]) ?_
    simpa [normalField] using hs.written_mixins_eq wf hps
  · have hne := (ShapeType.name_ne_of_mem_fields hf).2
    have ht := hs.sameField_written wf hps hf
    simpa [hne, Option.map_eq_bind, Function.comp_def] using ht

end Shape

namespace Model

theorem MetadataSpelledIn.exists_plain {es ps metadata : Entries Value}
    (h : MetadataSpelledIn es metadata) (hp : Entries.Pointwise HasPlain es ps) :
    ∃ ms : Entries Value, (Value.frozen metadata).HasPlain (.map ms) ∧
      ((ps.field? "metadata").bind fun v => if v = .map [] then none else some v) =
        if metadata = [] then none else some (.map ms) := by
  cases h with
  | absent hn => exact ⟨[], rfl, by simp [hp.field?_none hn]⟩
  | present hv hs _ =>
    obtain ⟨p, hf, hplain⟩ := hp.field?_of_left hv
    obtain ⟨-, q, hq, hfixed⟩ := hs
    obtain rfl := hplain.unique hq
    obtain ⟨ms, hms, rfl⟩ := hasPlain_frozen_iff.mp hfixed
    exact ⟨ms, hfixed, by simp [hf, hms.eq_nil_iff]⟩

theorem ShapesSpelledIn.exists_same {es ps : Entries Value} {shapes : List (AbsoluteId × Shape)}
    (h : ShapesSpelledIn es shapes) (hw : ∀ e ∈ es, e.2.isWellFormed = true)
    (hp : Entries.Pointwise HasPlain es ps) :
    ∃ node, shapesNode shapes = .ok node ∧ SameEntries SameDefinition node
      (normalDefinitions ((ps.field? "shapes").getD (.map []))) := by
  cases h with
  | absent hn =>
    rw [hp.field?_none hn]
    exact ⟨_, rfl, [], [], rfl, rfl, .nil⟩
  | @present v definitions _ hv hl hd hs =>
    obtain ⟨p, hf, hplain⟩ := hp.field?_of_left hv
    obtain ⟨ds, hds, rfl⟩ := (hl.hasPlain_iff hd).mp hplain
    have wf := hl.isWellFormed (hw _ (Entries.mem_of_field? hv))
    have each : List.Forall₂ (fun x d => d.1 = .str x.1.text ∧
        ∃ node, x.2.toNode = .ok node ∧ SameDefinition node (normalDefinition d.2)) shapes ds := by
      refine hs.across hds ?_
      rintro e he x d ⟨hk, -, -, hx⟩ ⟨hkey, hd⟩
      exact ⟨hkey ▸ hk, hx.exists_same (wf e he) hd⟩
    obtain ⟨ns, hns, hsame⟩ := exists_sameEntries_revise each
    rw [hf]
    exact ⟨.map ns, shapesNode_eq_ok_iff.mpr ⟨ns, rfl, hns⟩, hsame⟩

theorem SpelledIn.exists_same {model : Model} {es ps : Entries Value} (h : model.SpelledIn es)
    (hw : ∀ e ∈ es, e.2.isWellFormed = true) (hp : Entries.Pointwise HasPlain es ps)
    (hd : Entries.distinct (es.map (·.1)) = true) :
    ∃ node, model.toNode = .ok node ∧ SameDocument node (normalDocument (.map ps)) := by
  obtain ⟨ms, hms, metadata⟩ := h.metadata.exists_plain hp
  obtain ⟨shapes, hn, hsame⟩ := h.shapes.exists_same hw hp
  obtain ⟨fs, hfs, hdistinct, hkeys, lookup⟩ := exists_withShapes ps (hp.keys ▸ hd)
  have known : ∀ f ∈ fs, ∃ name ∈ ["smithy", "metadata", "shapes"], f.1 = .str name := by
    intro f hf
    rcases hkeys f hf with hk | hk
    · rw [← hp.keys] at hk
      obtain ⟨e, he, hke⟩ := List.mem_map.mp hk
      simpa [← hke] using h.known e he
    · exact ⟨"shapes", by simp, hk⟩
  have node : model.toNode = .ok (.map (Entries.tabulate ["smithy", "metadata", "shapes"]
      fun name => if name = "smithy" then some (.str model.version)
        else if name = "metadata" then if model.metadata = [] then none else some (.map ms)
        else some shapes)) := by
    rw [toNode_eq hms hn]
    split <;> rfl
  refine ⟨_, node, ?_⟩
  rw [normalDocument, hfs]
  refine sameFields_revise (by decide) hdistinct known ?_
  rintro name (_ | ⟨_, _ | ⟨_, _ | ⟨_, ⟨⟩⟩⟩⟩)
  · refine .of_eq (by simp) ?_
    simp [lookup, plain_field_of_text hp h.version]
  · refine .of_eq (by simp) ?_
    simpa [lookup] using metadata.symm
  · simpa [lookup] using hsame

end Model

/-- Whatever the settings, an accepted document is written back as the normal form of its plain
form, up to the order of fields, in plain mappings and lists. -/
theorem preserved_of_accepted [Visiting] {arrival : Schedule} {settings : Settings}
    {document : Value} {model : Model} {issues : List Issue} (hw : document.isWellFormed = true)
    (h : (validateWith arrival settings document).outcome = .ok ⟨some model, issues⟩) :
    ∃ plain node, document.toPlain = .ok plain ∧ model.toNode = .ok node ∧ node.isPlain = true ∧
      SameDocument node (normalDocument plain) := by
  obtain ⟨-, entries, hl, hm⟩ := validateWith_accepts_iff.mp h
  obtain ⟨plain, hp⟩ := exists_hasPlain_of_isWellFormed hw
  obtain ⟨ps, rfl, hps⟩ := hl.exists_plain_ofList hw hp
  have wf : ∀ e ∈ Entries.ofList entries, e.2.isWellFormed = true := by
    intro e he
    obtain ⟨d, hd, hde⟩ := List.mem_map.mp (Entries.sides_of_mem_ofList he).2
    rw [← hde]
    exact hl.isWellFormed hw d hd
  obtain ⟨node, hn, hsame⟩ := hm.exists_same wf hps (Entries.distinct_ofList entries)
  obtain ⟨_, hn', hplain, -⟩ := hm.valid.exists_toNode
  obtain rfl := Except.ok.inj (hn'.symm.trans hn)
  exact ⟨_, _, hp, hn, hplain, hsame⟩

open scoped Visiting in
/-- The version is listed twice, and the metadata, the mixins and the traits are empty. -/
theorem preserved_of_accepted_list : ∃ plain node,
    (Value.pairs [.tuple [.str "smithy", .str "1"], .tuple [.str "metadata", .frozen []],
      .tuple [.str "shapes", .map [(.str "a#L", .map [(.str "mixins", .tuple []),
        (.str "member", .map [(.str "traits", .map []), (.str "target", .str "a#B")]),
        (.str "type", .str "list")])]],
      .tuple [.str "smithy", .str "2.0"]]).toPlain = .ok plain ∧
    Model.toNode ⟨"2.0", [], [(⟨"a#L"⟩, ⟨.list, [], [("member", .member ⟨⟨⟨"a#B"⟩⟩, []⟩)]⟩)]⟩ =
      .ok node ∧
    node.isPlain = true ∧ SameDocument node (normalDocument plain) :=
  preserved_of_accepted (by decide) (show (validateWith .inOrder .standard _).outcome =
    .ok ⟨some _, []⟩ from rfl)

end ServiceModel
