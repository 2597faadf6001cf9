import ServiceModel.Proofs.Value.Plain

/-!
# Trees decoded from text

Where a decoder finds a key repeated in a text it makes a pair list, and the entries of that list
have texts for keys. A pair list of this kind does not open unless it is empty. Everything that
opens reads by name like its plain form: the same keys in the same order, under which stand values
and their plain forms.
-/
namespace ServiceModel

namespace Value

/-- An entry of two parts, the first of them a text. -/
def isTextEntry : Value → Bool
  | .tuple [.str _, _] => true
  | _ => false

/-- What holds of every tree decoded from text: a mapping repeats no key unless it is a pair list,
and the items of a pair list are entries under texts. -/
def isDecoded : Value → Bool := everyNode fun
  | .map entries | .frozen entries => Entries.distinct (entries.map (·.1))
  | .pairs items => items.all isTextEntry
  | .scalar _ | .list _ | .tuple _ => true

theorem exists_entries_of_isTextEntry {items : List Value} (h : items.all isTextEntry = true) :
    ∃ es : Entries Value, items = (es.map fun e => entry e.1.toValue e.2) ∧
      ∀ e ∈ es, e.1.IsText := by
  induction items with
  | nil => exact ⟨[], rfl, by simp⟩
  | cons item rest ih =>
    obtain ⟨hi, hr⟩ := Bool.and_eq_true_iff.mp (List.all_cons ▸ h)
    obtain ⟨es, rfl, ht⟩ := ih hr
    unfold isTextEntry at hi
    split at hi
    · rename_i name value
      exact ⟨(.str name, value) :: es, rfl, List.forall_mem_cons.mpr ⟨⟨name, rfl⟩, ht⟩⟩
    · cases hi

theorem isWellFormed_of_isDecoded {v : Value} (h : v.isDecoded = true) :
    v.isWellFormed = true := by
  refine everyNode_mono (fun v hv => ?_) h
  cases v with
  | pairs items =>
    obtain ⟨es, rfl, -⟩ := exists_entries_of_isTextEntry hv
    exact Fault.isOk_iff.mpr ⟨es, keyedEntries_entry es⟩
  | _ => exact hv

/-- A repeated key leaves one entry in the plain form. -/
theorem isWellFormed_of_hasPlain {v p : Value} (hw : v.isWellFormed = true) (h : v.HasPlain p) :
    p.isWellFormed = true := by
  induction v, hw using wellFormed_induction generalizing p with
  | scalar s _ =>
    cases h
    rfl
  | sequence v xs hi _ _ ih =>
    obtain ⟨ps, hps, rfl⟩ := hi.hasPlain_iff.mp h
    refine (everyNode_list_iff ps).mpr ⟨rfl, fun p hp => ?_⟩
    obtain ⟨x, hx, hxp⟩ := hps.exists_of_mem_right hp
    exact ih x hx hxp
  | mapping v es hl hw _ ih =>
    obtain ⟨ps, hps, rfl⟩ := (hl.hasPlain_ofList_iff fun hm => hm.distinct hw).mp h
    refine (everyNode_map_iff _).mpr ⟨Entries.distinct_ofList ps, fun p hp => ?_⟩
    obtain ⟨q, hq, hqp⟩ := List.mem_map.mp (Entries.sides_of_mem_ofList hp).2
    obtain ⟨e, he, -, hep⟩ := hps.exists_of_mem_right hq
    exact ih e he (hqp ▸ hep)

theorem isPairFree_of_isPlain {v : Value} (h : v.isPlain = true) : v.isPairFree = true := by
  refine everyNode_mono (fun v hv => ?_) h
  cases v with
  | pairs items => cases hv
  | _ => rfl

theorem Lists.isDecoded {v : Value} {es : Entries Value} (h : v.Lists es)
    (hd : v.isDecoded = true) : ∀ e ∈ es, e.2.isDecoded = true :=
  h.everyNode (fun _ => rfl) (fun _ => rfl) hd

/-- Of the pair lists only the empty one opens. -/
theorem opens_pairs_iff {items : List Value} (ht : items.all isTextEntry = true) :
    Opens (.pairs items) ↔ items = [] := by
  constructor
  · rintro ⟨found, hf⟩
    cases found with
    | none => cases entries?_eq_ok_none_iff.mp hf
    | some fs =>
      obtain ⟨-, -, hn⟩ := entries?_pairs hf
      obtain ⟨es, rfl, texts⟩ := exists_entries_of_isTextEntry ht
      cases es with
      | nil => rfl
      | cons e rest =>
        obtain ⟨k, v, hk, hs⟩ := hn (entry e.1.toValue e.2) List.mem_cons_self
        rw [split_entry] at hs
        have same : e.1 = k := toValue_injective (congrArg Prod.fst (Except.ok.inj hs))
        exact absurd (same ▸ texts e List.mem_cons_self) hk
  · rintro rfl
    exact Maps.empty.opens

/-! A value and its plain form. -/

theorem HasPlain.plain {v p : Value} (h : v.HasPlain p) : p.HasPlain p :=
  hasPlain_self (isPlain_of_hasPlain h)

/-- Making plain what is plain changes nothing. -/
theorem HasPlain.toPlain_eq {v p : Value} (h : v.HasPlain p) : v.toPlain = p.toPlain :=
  h.trans h.plain.symm

/-- A function that does not look inside lists and mappings takes both to the same result. -/
theorem HasPlain.congr {α : Type} {f : Value → α} {v p : Value} (h : v.HasPlain p)
    (sequence : ∀ items ps, f (.list items) = f (.list ps) ∧ f (.tuple items) = f (.list ps))
    (mapping : ∀ es ps, f (.map es) = f (.map ps) ∧ f (.frozen es) = f (.map ps))
    (pairs : ∀ items ps, f (.pairs items) = f (.map ps)) : f v = f p := by
  cases v with
  | scalar s =>
    cases h
    rfl
  | list items =>
    obtain ⟨ps, -, rfl⟩ := hasPlain_list_iff.mp h
    exact (sequence items ps).1
  | tuple items =>
    obtain ⟨ps, -, rfl⟩ := hasPlain_tuple_iff.mp h
    exact (sequence items ps).2
  | map es =>
    obtain ⟨ps, -, rfl⟩ := hasPlain_map_iff.mp h
    exact (mapping es ps).1
  | frozen es =>
    obtain ⟨ps, -, rfl⟩ := hasPlain_frozen_iff.mp h
    exact (mapping es ps).2
  | pairs items =>
    obtain ⟨_, ps, -, -, rfl⟩ := hasPlain_pairs_iff.mp h
    exact pairs items _

theorem HasPlain.str?_eq {v p : Value} (h : v.HasPlain p) : v.str? = p.str? :=
  h.congr (fun _ _ => ⟨rfl, rfl⟩) (fun _ _ => ⟨rfl, rfl⟩) fun _ _ => rfl

theorem HasPlain.hasEntries_eq {v p : Value} (h : v.HasPlain p) : v.hasEntries = p.hasEntries :=
  h.congr (fun _ _ => ⟨rfl, rfl⟩) (fun _ _ => ⟨rfl, rfl⟩) fun _ _ => rfl

theorem hasPlain_field {es ps : Entries Value} (hq : Entries.Pointwise HasPlain es ps)
    (name : String) (default : Value) (hd : default.isPlain = true) :
    ((es.field? name).getD default).HasPlain ((ps.field? name).getD default) := by
  cases hf : es.field? name with
  | none =>
    rw [hq.field?_none hf]
    exact hasPlain_self hd
  | some v =>
    obtain ⟨p, hp, h⟩ := hq.field?_of_left hf
    rw [hp]
    exact h

/-- Read by name, the two give entries that are a value and its plain form one by one, or neither
gives any. -/
inductive ReadAlike (v p : Value) : Prop
  | mapping {es ps : Entries Value} (hv : v.Maps es) (hp : p.Maps ps)
    (h : Entries.Pointwise HasPlain es ps) : ReadAlike v p
  | other (hv : v.hasEntries = false) (hp : p.hasEntries = false) : ReadAlike v p

theorem readAlike_of_opens {v p : Value} (hd : v.isDecoded = true) (ho : v.Opens)
    (hp : v.HasPlain p) : ReadAlike v p := by
  cases hentries : v.hasEntries with
  | false => exact .other hentries (hp.hasEntries_eq ▸ hentries)
  | true =>
    have hm : ∃ es, v.Maps es := by
      cases v with
      | scalar s => cases hentries
      | list items => cases hentries
      | tuple items => cases hentries
      | map es => exact ⟨es, .map es⟩
      | frozen es => exact ⟨es, .frozen es⟩
      | pairs items =>
        obtain rfl := (opens_pairs_iff ((everyNode_pairs_iff items).mp hd).1).mp ho
        exact ⟨[], .empty⟩
    obtain ⟨es, hm⟩ := hm
    obtain ⟨ps, hq, rfl⟩ := hm.hasPlain_iff.mp hp
    exact .mapping hm (.map ps) hq

/-- A mapping and its plain form have the same keys, under which the same entries count. -/
theorem Lists.pointwise_ofList {v p : Value} {es ps : Entries Value} (h : v.Lists es)
    (hw : v.isWellFormed = true) (hp : v.HasPlain p) (h' : p.Lists ps) :
    Entries.Pointwise HasPlain (Entries.ofList es) (Entries.ofList ps) := by
  obtain ⟨qs, rfl, hq⟩ := h.exists_plain_ofList hw hp
  obtain rfl := h'.unique (.map qs)
  rw [Entries.ofList_of_distinct ps (hq.keys ▸ Entries.distinct_ofList es)]
  exact hq

end Value

end ServiceModel
