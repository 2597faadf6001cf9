import ServiceModel.Proofs.Placement
import ServiceModel.Proofs.Value.Decoded

/-!
# Definitions that read like their plain forms

In the plain form of a tree the last entry under each key is the one that is left. A decoded
definition all of whose places open is read like its plain form: the readers find the same issues,
and where the structural rules hold, the same contents. So the two parse alike; only the words of
an issue that shows its value can differ.
-/
namespace ServiceModel

/-- What an issue reports and where, without its words. -/
def Issue.mark (issue : Issue) : Issue.Kind × Path := (issue.kind, issue.path)

theorem Issue.mark_under {issue other : Issue} (h : issue.mark = other.mark) (path : Path) :
    (issue.under path).mark = (other.under path).mark := by
  obtain ⟨hk, hp⟩ := Prod.mk.inj h
  exact Prod.ext hk (congrArg (path ++ ·) hp)

/-- No two entries of a mapping have the same key. -/
def Value.RepeatsNoKey (value : Value) : Prop :=
  ∀ es, value.Lists es → Entries.distinct (es.map (·.1)) = true

namespace Reading
open Traced Value
variable {value plain : Value} {es ps : Entries Value}

theorem tokenOfText_congr (rule : Rule) (hp : value.HasPlain plain) :
    tokenOfText rule value = tokenOfText rule plain :=
  hp.congr (fun _ _ => ⟨rfl, rfl⟩) (fun _ _ => ⟨rfl, rfl⟩) fun _ _ => rfl

/-- Readers of entries read a value and its plain form alike if they do so with the entries. -/
theorem entries_congr {α : Type} {f g : Option (Entries Value) → Reading α}
    (h : ReadAlike value plain) (hnone : f none = g none) (hsome : ∀ es ps, value.Maps es →
      Entries.Pointwise HasPlain es ps → f (some es) = g (some ps)) :
    lift value.entries? >>= f = lift plain.entries? >>= g := by
  cases h with
  | @mapping es ps hv hp hq =>
    rw [hv.entries?_eq, hp.entries?_eq, lift_ok, lift_ok, pure_bind, pure_bind, hsome es ps hv hq]
  | other hv hp =>
    rw [entries?_eq_ok_none_iff.mpr hv, entries?_eq_ok_none_iff.mpr hp, lift_ok, pure_bind,
      pure_bind, hnone]

theorem reference_congr (hd : value.isDecoded = true) (hp : value.HasPlain plain)
    (ho : value.Opens) : reference value = reference plain := by
  refine entries_congr (readAlike_of_opens hd ho hp) rfl fun es ps _ hq => ?_
  dsimp only
  rw [tokenOfText_congr .absoluteId (hasPlain_field hq "target" .null rfl)]

theorem memberTrait_congr (key : Key) (hp : value.HasPlain plain) :
    memberTrait key value = memberTrait key plain := by
  unfold memberTrait
  rw [hp.toPlain_eq]

theorem memberTraits_congr (hd : ∀ e ∈ es, e.2.isDecoded = true)
    (hq : Entries.Pointwise HasPlain es ps) (hr : Readable.traits es) :
    memberTraits es = memberTraits ps := by
  have alike : ReadAlike ((es.field? "traits").getD (.map [])) ((ps.field? "traits").getD (.map []))
      := by
    cases ht : es.field? "traits" with
    | none =>
      rw [hq.field?_none ht]
      exact .mapping (.map []) (.map []) .nil
    | some t =>
      obtain ⟨p, hpt, h⟩ := hq.field?_of_left ht
      rw [hpt]
      exact readAlike_of_opens (hd _ (Entries.mem_of_field? ht)) (hr t ht) h
  refine entries_congr alike rfl fun ts qs _ hts => ?_
  have traits : each (fun e => memberTrait e.1 e.2) ts = each (fun e => memberTrait e.1 e.2) qs :=
    each_congr (hts.imp fun e q h => by rw [h.1, memberTrait_congr q.1 h.2])
  exact congrArg (· >>= _) traits

theorem member_congr (hd : value.isDecoded = true) (hp : value.HasPlain plain)
    (hr : Readable.member value) : member value = member plain := by
  unfold member
  rw [reference_congr hd hp hr.1]
  refine congrArg _ (funext fun found => ?_)
  refine entries_congr (readAlike_of_opens hd hr.1 hp) rfl fun es ps hm hq => ?_
  dsimp only
  rw [memberTraits_congr (hm.lists.isDecoded hd) hq (hr.2 es hm.entries?_eq)]

/-- The items of a pair list are no references, so nothing is found in them. -/
theorem trace_references_of_texts {items : List Value} (ht : items.all isTextEntry = true) :
    (references (.pairs items)).trace = [] := by
  have nothing : ∀ item ∈ items.zipIdx, within [.int item.2] (reference item.1) = pure none := by
    intro item hi
    have text := List.all_eq_true.mp ht item.1 (List.fst_mem_of_mem_zipIdx hi)
    unfold isTextEntry at text
    split at text
    · rename_i name v he
      rw [he]
      rfl
    · cases text
  have ends : ∀ item ∈ items.zipIdx, (within [.int item.2] (reference item.1)).Ends :=
    fun item hi => nothing item hi ▸ ends_pure none
  change (some <$> each (fun item : Value × Nat =>
    within [.int item.2] (reference item.1)) items.zipIdx).trace = []
  rw [trace_map, trace_each ends, List.flatMap_eq_nil_iff]
  exact fun item hi => nothing item hi ▸ rfl

theorem references_alike (hd : value.isDecoded = true) (hp : value.HasPlain plain)
    (hr : Readable.references value) :
    Alike (Check.arrayOf Check.reference plain = []) (references value) (references plain) := by
  have items : ∀ vs qs : List Value, List.Forall₂ HasPlain vs qs →
      (∀ v ∈ vs, v.isDecoded = true) → (∀ v ∈ vs, v.Opens) →
      references (.list vs) = references (.list qs) := by
    intro vs qs hq hd ho
    have alike := hq.imp_of_mem (T := fun v q => reference v = reference q)
      fun v hv q _ h => reference_congr (hd v hv) h (ho v hv)
    refine congrArg (· >>= fun found => pure (some found)) (each_congr ?_)
    exact (alike.zipIdx 0).imp fun v q h => by rw [h.1, h.2]
  cases value with
  | scalar s =>
    cases hp
    exact .of_eq rfl
  | list vs =>
    obtain ⟨qs, hq, rfl⟩ := hasPlain_list_iff.mp hp
    exact .of_eq (items vs qs hq ((everyNode_list_iff vs).mp hd).2 (hr vs (.inl rfl)))
  | tuple vs =>
    obtain ⟨qs, hq, rfl⟩ := hasPlain_tuple_iff.mp hp
    exact .of_eq (items vs qs hq ((everyNode_tuple_iff vs).mp hd).2 (hr vs (.inr (.inl rfl))))
  | map es =>
    obtain ⟨qs, -, rfl⟩ := hasPlain_map_iff.mp hp
    exact .of_eq rfl
  | frozen es =>
    obtain ⟨qs, -, rfl⟩ := hasPlain_frozen_iff.mp hp
    exact .of_eq rfl
  | pairs vs =>
    obtain ⟨_, qs, -, -, rfl⟩ := hasPlain_pairs_iff.mp hp
    refine ⟨trace_references_of_texts ((everyNode_pairs_iff vs).mp hd).1, fun hc => ?_⟩
    obtain ⟨_, he, -⟩ := Check.arrayOf_eq_nil_iff.mp hc
    cases he

theorem mapping_congr {α : Type} (entry : Key → Value → Reading (Option α))
    (hd : value.isDecoded = true) (hp : value.HasPlain plain) (ho : value.Opens)
    (same : ∀ es, value.Maps es → ∀ e ∈ es, ∀ q, e.2.isDecoded = true → e.2.HasPlain q →
      entry e.1 e.2 = entry e.1 q) : mapping entry value = mapping entry plain := by
  refine entries_congr (readAlike_of_opens hd ho hp) rfl fun es ps hm hq => ?_
  have decoded := hm.lists.isDecoded hd
  have each : Traced.each (fun e => entry e.1 e.2) es = Traced.each (fun e => entry e.1 e.2) ps :=
    each_congr (hq.imp_of_mem fun e he q _ h =>
      (same es hm e he q.2 (decoded e he) h.2).trans (by rw [h.1]))
  exact congrArg (· >>= fun found => pure (some (found.filterMap id))) each

theorem referenceMap_congr (hd : value.isDecoded = true) (hp : value.HasPlain plain)
    (hr : Readable.referenceMap value) : referenceMap value = referenceMap plain := by
  refine mapping_congr referenceEntry hd hp hr.1 fun es hm e he q hde h => ?_
  unfold referenceEntry
  split
  · rename_i name hk
    rw [reference_congr hde h (hr.2 es hm.entries?_eq e he ⟨name, hk⟩)]
  · rfl

theorem traitMap_congr (hd : value.isDecoded = true) (hp : value.HasPlain plain)
    (ho : value.Opens) : traitMap value = traitMap plain := by
  refine mapping_congr traitEntry hd hp ho fun es _ e _ q _ h => ?_
  unfold traitEntry
  rw [h.toPlain_eq]

theorem identifierMap_congr (hd : value.isDecoded = true) (hp : value.HasPlain plain)
    (ho : value.Opens) : identifierMap value = identifierMap plain := by
  refine mapping_congr identifierEntry hd hp ho fun es _ e _ q _ h => ?_
  unfold identifierEntry
  rw [tokenOfText_congr .identifier h]

theorem memberMap_congr {policy : NamingPolicy} (hd : value.isDecoded = true)
    (hp : value.HasPlain plain) (hr : Readable.memberMap value) (once : value.RepeatsNoKey) :
    memberMap policy value = memberMap policy plain := by
  cases hentries : value.hasEntries with
  | false =>
    rw [memberMap_of_not_hasEntries hentries,
      memberMap_of_not_hasEntries (hp.hasEntries_eq ▸ hentries)]
  | true =>
    obtain ⟨es, hl⟩ := exists_lists_of_isWellFormed (isWellFormed_of_isDecoded hd) hentries
    obtain ⟨ps, hq, rfl⟩ := (hl.hasPlain_iff (once es hl)).mp hp
    have decoded := hl.isDecoded hd
    have names : es.map (·.1.toValue) = ps.map (·.1.toValue) := by
      have hk := congrArg (List.map Key.toValue) hq.keys
      rwa [List.map_map, List.map_map] at hk
    have each : Traced.each (fun e => memberEntry e.1.toValue e.2) es =
        Traced.each (fun e => memberEntry e.1.toValue e.2) ps := by
      refine each_congr (hq.imp_of_mem fun e he q _ h => ?_)
      unfold memberEntry
      rw [member_congr (decoded e he) h.2 (hr es hl e he), h.1]
    rw [memberMap_of_lists hl, memberMap_of_lists (.map ps), names, each]

/-- The contents are the same, except that a pair list in the place of a list has items. -/
theorem content_alike [Visiting] {kind : ContentKind} (hd : value.isDecoded = true)
    (hp : value.HasPlain plain) (hr : Readable.content kind value)
    (once : ∀ policy, kind = .memberMap policy → value.RepeatsNoKey) :
    Alike (Check.ofKind kind plain = []) (content kind value) (content kind plain) := by
  cases kind with
  | text => exact .of_eq (congrArg (fun s => pure (s.map Content.text)) hp.str?_eq)
  | reference => exact .map (.of_eq (reference_congr hd hp hr)) _
  | member => exact .map (.of_eq (member_congr hd hp hr)) _
  | references => exact (references_alike hd hp hr).map _
  | referenceMap => exact .map (.of_eq (referenceMap_congr hd hp hr)) _
  | memberMap policy => exact .map (.of_eq (memberMap_congr hd hp hr (once policy rfl))) _
  | traitMap => exact .map (.of_eq (traitMap_congr hd hp hr)) _
  | identifierMap => exact .map (.of_eq (identifierMap_congr hd hp hr)) _

end Reading

namespace Shape

/-- No member map of the definition has two members under one name. -/
def NamesOnce (type : ShapeType) (es : Entries Value) : Prop :=
  ∀ f ∈ type.fields, ∀ policy, f.kind = .memberMap policy →
    ∀ v, es.field? f.name = some v → v.RepeatsNoKey

end Shape

namespace Draft
open Traced Value
variable {type : ShapeType} {es ps : Entries Value}

theorem readMixins_alike [Visiting] (hd : ∀ e ∈ es, e.2.isDecoded = true)
    (hq : Entries.Pointwise HasPlain es ps) (hr : Readable.Fields type es) :
    Alike (Check.ofShapeType type (.map ps) = []) (readMixins type (.map es))
      (readMixins type (.map ps)) := by
  have mixins := hr.mixins
  unfold readMixins fieldOf?
  cases ha : type.allowsMixins with
  | false => exact .of_eq rfl
  | true =>
    cases hm : es.field? "mixins" with
    | none =>
      refine .of_eq ?_
      dsimp only
      rw [hm, hq.field?_none hm]
    | some v =>
      obtain ⟨p, hpm, hp⟩ := hq.field?_of_left hm
      have found := Reading.references_alike (hd _ (Entries.mem_of_field? hm)) hp (mixins ha v hm)
      dsimp only
      rw [hm, hpm, lift_ok, lift_ok, pure_bind, pure_bind]
      refine ((found.imp fun hc => ?_).relabel _).bind_of_quiet fun _ => rfl
      obtain ⟨_, hps, -, hmixins, -⟩ := Check.ofShapeType_eq_nil_iff.mp hc
      cases hps
      exact hmixins p ha hpm

theorem readField_alike [Visiting] {field : Field} (hd : ∀ e ∈ es, e.2.isDecoded = true)
    (hq : Entries.Pointwise HasPlain es ps) (hr : Readable.Fields type es)
    (once : Shape.NamesOnce type es) (hf : field ∈ type.fields) :
    Alike (Check.ofShapeType type (.map ps) = []) (readField (.map es) field)
      (readField (.map ps) field) := by
  unfold readField fieldOf?
  dsimp only
  cases hv : es.field? field.name with
  | none =>
    rw [hq.field?_none hv]
    exact .of_eq rfl
  | some v =>
    obtain ⟨p, hpv, hp⟩ := hq.field?_of_left hv
    have found := Reading.content_alike (hd _ (Entries.mem_of_field? hv)) hp
      (hr.contents field hf v hv) fun policy hk => once field hf policy hk v hv
    rw [hpv, lift_ok, lift_ok, pure_bind, pure_bind]
    refine ((found.imp fun hc => ?_).relabel _).bind_of_quiet fun c => ?_
    · obtain ⟨_, hps, -, -, hfields, -⟩ := Check.ofShapeType_eq_nil_iff.mp hc
      cases hps
      exact (hfields field hf).1 p hpv
    · cases c with
      | none => rfl
      | some c => exact trace_map _ _

section
variable (hd : ∀ e ∈ es, e.2.isDecoded = true) (hq : Entries.Pointwise HasPlain es ps)
include hd hq

theorem isWellFormed_of_pointwise : ∀ p ∈ ps, p.2.isWellFormed = true := by
  intro p hp
  obtain ⟨e, he, -, h⟩ := hq.exists_of_mem_right hp
  exact isWellFormed_of_hasPlain (isWellFormed_of_isDecoded (hd e he)) h

omit hd in
theorem fields_of_pointwise : Readable.Fields type ps := by
  refine Readable.fields_of_placed fun p hp => .inl ?_
  obtain ⟨_, -, -, h⟩ := hq.exists_of_mem_right hp
  exact isPairFree_of_isPlain (isPlain_of_hasPlain h)

theorem read_alike [Visiting] (hr : Readable.Fields type es) (once : Shape.NamesOnce type es) :
    Alike (Check.ofShapeType type (.map ps) = []) (read type (.map es)) (read type (.map ps)) := by
  have plain : Readable.Fields type ps := fields_of_pointwise hq
  have fields := Alike.each (fun f hf => readField_alike hd hq hr once hf)
    (fun f hf => (readField_ends_iff fun e he => isWellFormed_of_isDecoded (hd e he)).mpr
      (hr.contents f hf))
    (fun f hf => (readField_ends_iff (isWellFormed_of_pointwise hd hq)).mpr (plain.contents f hf))
  refine (readMixins_alike hd hq hr).bind (readMixins_ends_iff.mpr hr.mixins)
    (readMixins_ends_iff.mpr plain.mixins) (fun a b => ?_) fun hc => ?_
  · exact ((trace_map _ _).trans fields.trace).trans (trace_map _ _).symm
  · exact funext fun mixins => congrArg
      (· >>= fun found => pure (⟨type, mixins, found.filterMap id⟩ : Draft)) (fields.same hc)

/-- If there are issues, there is no shape, whatever was read. -/
theorem finish_congr [Visiting] {path : Path} {issues : List Issue} (hr : Readable.Fields type es)
    (once : Shape.NamesOnce type es)
    (hi : type.structuralIssuesAt path (.map ps) = .ok issues) :
    Collector.finish ⟨path, issues⟩ type (.map es) =
      Collector.finish ⟨path, issues⟩ type (.map ps) := by
  have alike := read_alike hd hq hr once
  by_cases hempty : issues = []
  · subst hempty
    unfold Collector.finish
    rw [alike.same (ShapeType.structuralIssuesAt_eq_nil_iff.mp hi)]
  · have none_of : ∀ fs : Entries Value, (read type (.map fs)).Ends →
        Collector.finish ⟨path, issues⟩ type (.map fs) =
          (⟨path, issues ++ (read type (.map fs)).trace.map (.under path)⟩, .ok none) := by
      rintro fs ⟨draft, hdraft⟩
      refine Prod.ext rfl (Fault.bind_eq_ok_iff.mpr ⟨draft, hdraft, if_neg ?_⟩)
      simp [hempty]
    rw [none_of es ((read_ends_iff fun e he => isWellFormed_of_isDecoded (hd e he)).mpr hr),
      none_of ps ((read_ends_iff (isWellFormed_of_pointwise hd hq)).mpr (fields_of_pointwise hq)),
      alike.trace]

end

end Draft

namespace Shape
open Traced Value
variable {node plain : Value} {path : Path}

theorem classify_of_not_hasEntries (h : node.hasEntries = false) :
    classify node = .ok (.error ((Finding.notAShape node).issueAt [])) := by
  rw [classify, entries?_eq_ok_none_iff.mpr h]
  rfl

theorem classify_of_maps {es : Entries Value} (h : node.Maps es) : classify node =
    match es.field? "type" with
    | none => .ok (.error (Finding.typeMissing.issueAt [.str "type"]))
    | some tag => match ShapeType.ofValue? tag with
      | none => .ok (.error ((Finding.typeUnknown tag).issueAt [.str "type"]))
      | some type => .ok (.ok (type, es)) := by
  unfold classify
  rw [h.entries?_eq, Fault.ok_bind]
  dsimp only
  cases es.field? "type" with
  | none => rfl
  | some tag => cases ShapeType.ofValue? tag <;> rfl

theorem ofValue?_congr {tag ptag : Value} (hp : tag.HasPlain ptag) :
    ShapeType.ofValue? tag = ShapeType.ofValue? ptag :=
  hp.congr (fun _ _ => ⟨rfl, rfl⟩) (fun _ _ => ⟨rfl, rfl⟩) fun _ _ => rfl

section
variable [Visiting]

theorem parse_of_refused {issue : Issue} (hc : classify node = .ok (.error issue)) :
    parse node path = ⟨[issue.under path], .ok none⟩ := by
  unfold parse
  rw [bind_of_ok (m := lift (classify node)) hc]
  rfl

/-- Where the type is known, a definition and its plain form are parsed to the same. -/
theorem parse_congr {type : ShapeType} {es : Entries Value} (hd : node.isDecoded = true)
    (hp : node.HasPlain plain) (hc : classify node = .ok (.ok (type, es)))
    (hr : Readable.Fields type es) (once : NamesOnce type es)
    (hpath : ∀ token ∈ path, ∃ key : Key, token = key.toValue) :
    parse node path = parse plain path := by
  obtain ⟨hm, ht⟩ := classify_eq_ok_iff.mp hc
  obtain ⟨ps, hq, rfl⟩ := hm.hasPlain_iff.mp hp
  have hl : classify (.map ps) = .ok (.ok (type, ps)) :=
    classify_eq_ok_iff.mpr ⟨.map ps, plain_field_of_text hq ht⟩
  obtain ⟨issues, hi⟩ := structuralIssuesAt_ends type (.map ps) hpath
  -- The structural rules see the plain form of either, so only the drafts are left.
  have plain := hasPlain_map_iff.mpr ⟨ps, hq, rfl⟩
  rw [parse_of_classified hc plain hi, parse_of_classified hl plain.plain hi,
    Draft.finish_congr (hm.lists.isDecoded hd) hq hr once hi]

/-- A definition and its plain form parse alike: at most the words of an issue differ. -/
theorem parse_alike (hd : node.isDecoded = true) (hp : node.HasPlain plain)
    (hr : Readable.definition node)
    (once : ∀ type es, classify node = .ok (.ok (type, es)) → NamesOnce type es)
    (hpath : ∀ token ∈ path, ∃ key : Key, token = key.toValue) :
    (parse node path).outcome = (parse plain path).outcome ∧
      (parse node path).trace.map Issue.mark = (parse plain path).trace.map Issue.mark := by
  have refused : ∀ {i j : Issue}, classify node = .ok (.error i) →
      classify plain = .ok (.error j) → i.mark = j.mark →
      (parse node path).outcome = (parse plain path).outcome ∧
      (parse node path).trace.map Issue.mark = (parse plain path).trace.map Issue.mark := by
    intro i j hi hj h
    rw [parse_of_refused hi, parse_of_refused hj]
    exact ⟨rfl, congrArg (fun mark => [mark]) (Issue.mark_under h path)⟩
  cases readAlike_of_opens hd hr.1 hp with
  | other hv hp =>
    exact refused (classify_of_not_hasEntries hv) (classify_of_not_hasEntries hp) rfl
  | @mapping es ps hv hps hq =>
    have hn := classify_of_maps hv
    have hl := classify_of_maps hps
    cases ht : es.field? "type" with
    | none =>
      rw [ht] at hn
      rw [hq.field?_none ht] at hl
      exact refused hn hl rfl
    | some tag =>
      obtain ⟨ptag, hpt, htag⟩ := hq.field?_of_left ht
      rw [ht] at hn
      rw [hpt] at hl
      dsimp only at hn hl
      rw [ofValue?_congr htag] at hn
      cases hk : ShapeType.ofValue? ptag with
      | none =>
        rw [hk] at hn hl
        exact refused hn hl rfl
      | some type =>
        rw [hk] at hn
        rw [parse_congr hd hp hn (hr.2 type es hn) (once type es hn) hpath]
        exact ⟨rfl, rfl⟩

end

end Shape

end ServiceModel
