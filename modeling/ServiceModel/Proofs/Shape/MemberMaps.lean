import ServiceModel.Proofs.Shape.Contents

/-!
# Member maps are read as they are spelled

Members are read entry by entry, those under repeated names included, and written one after another
under their names. Names that are admitted do not repeat, so every entry keeps its member.
-/
namespace ServiceModel.Reading

theorem putMember_of_absent {entries : List (MemberName × Option Member)}
    {entry : MemberName × Option Member}
    (h : ∀ other ∈ entries, other.1.key.same entry.1.key = false) :
    putMember entries entry = entries ++ [entry] := by
  induction entries with
  | nil => rfl
  | cons other rest ih =>
    obtain ⟨ho, hr⟩ := List.forall_mem_cons.mp h
    simp [putMember, ho, ih hr]

theorem foldl_putMember (entries found : List (MemberName × Option Member))
    (h : ((entries ++ found).map (·.1.key)).Pairwise fun a b => a.same b = false) :
    found.foldl putMember entries = entries ++ found := by
  induction found generalizing entries with
  | nil => simp
  | cons entry rest ih =>
    have hp := h
    rw [List.map_append, List.pairwise_append] at hp
    have absent : ∀ other ∈ entries, other.1.key.same entry.1.key = false := by
      intro other ho
      exact hp.2.2 _ (List.mem_map_of_mem ho) _ (by simp)
    rw [List.foldl_cons, putMember_of_absent absent, ih _ (by simpa using h)]
    simp

/-- Entries whose keys are member names, as a mapping and as keys with their values. -/
theorem splitAll_eq_ok_iff {items : List Value} {es : Entries Value} :
    Value.splitAll items = .ok (es.map fun e => (e.1.toValue, e.2)) ↔
      Value.keyedEntries items = .ok es := by
  rw [Value.splitAll, Fault.mapM_eq_ok_iff, List.forall₂_map_right_iff,
    Value.keyedEntries_eq_ok_iff]

theorem memberMap_of_lists {policy : NamingPolicy} {value : Value} {es : Entries Value}
    (h : value.Lists es) : memberMap policy value =
      (Traced.emit (MemberNames.issues policy (es.map (·.1.toValue))) >>= fun _ =>
        Traced.each (fun e => memberEntry e.1.toValue e.2) es >>= fun found =>
          pure (some (found.foldl putMember []))) := by
  obtain ⟨items, hi, hk⟩ := Value.lists_iff.mp h
  unfold memberMap
  rw [hi]
  dsimp only
  rw [splitAll_eq_ok_iff.mpr hk, Traced.lift_ok, pure_bind, List.map_map, Traced.each_map]
  rfl

theorem memberMap_of_not_hasEntries {policy : NamingPolicy} {value : Value}
    (h : value.hasEntries = false) : memberMap policy value = pure none := by
  rw [← Value.items?_isSome, Option.isSome_eq_false_iff, Option.isNone_iff_eq_none] at h
  unfold memberMap
  rw [h]

theorem exists_entries_of_texts {split : List (Value × Value)} {names : List String}
    (h : split.map (·.1) = names.map .str) : ∃ es : Entries Value,
      split = es.map (fun e => (e.1.toValue, e.2)) ∧ es.map (·.1) = names.map .str := by
  induction split generalizing names with
  | nil =>
    cases names with
    | nil => exact ⟨[], rfl, rfl⟩
    | cons name more => cases h
  | cons pair rest ih =>
    cases names with
    | nil => cases h
    | cons name more =>
      obtain ⟨hk, hr⟩ := List.cons.inj h
      obtain ⟨es, rfl, hes⟩ := ih hr
      refine ⟨(.str name, pair.2) :: es, ?_, by simp [hes]⟩
      rw [List.map_cons, ← show pair.1 = (Key.str name).toValue from hk]

theorem spelledAt_iff {e : Key × Value} {name : String} (hk : e.1 = .str name)
    (hn : Rule.isIdentifier name.toList = true) {q : Value} (hq : e.2.HasPlain q)
    {found : MemberName × Option Member} :
    Check.member q = [] ∧ (memberEntry e.1.toValue e.2).Yields found ↔
      Member.SpelledAt e found := by
  obtain ⟨_, v⟩ := e
  subst hk
  have ha : (⟨name⟩ : Identifier).Accepted := Token.accepted_iff.mpr hn
  have hname : memberName (.str name) = pure (.identifier ⟨name⟩) := by
    have hp : Token.parse .identifier (.str name) = .ok ⟨name⟩ := ha
    simp [memberName, hp]
  have hr : (memberEntry (Key.str name).toValue v).Yields found ↔
      ∃ o, (member v).Yields o ∧ found = (.identifier ⟨name⟩, o) := by
    simp [memberEntry, Key.toValue, hname, Traced.yields_map_iff, within_yields_iff]
  rw [hr]
  constructor
  · rintro ⟨hc, o, ho, rfl⟩
    obtain ⟨m, rfl, hm⟩ := (member_exact hq).mp ⟨hc, ho⟩
    exact ⟨name, m, rfl, rfl, hm⟩
  · rintro ⟨name', m, hk, rfl, hm⟩
    cases hk
    obtain ⟨hc, ho⟩ := (member_exact hq).mpr ⟨m, rfl, hm⟩
    exact ⟨hc, some m, ho, rfl⟩

theorem each_memberEntry_exact {policy : NamingPolicy} {names : List String} {es ps : Entries Value}
    {os : List (MemberName × Option Member)} (hk : es.map (·.1) = names.map .str)
    (ha : MemberNames.Admits policy names) (hq : Entries.Pointwise Value.HasPlain es ps) :
    (∀ q ∈ ps, Check.member q.2 = []) ∧
        List.Forall₂ (fun e o => (memberEntry e.1.toValue e.2).Yields o) es os ↔
      List.Forall₂ Member.SpelledAt es os := by
  refine hq.and_iff fun e he q o h => ?_
  obtain ⟨name, hn, hkey⟩ := List.mem_map.mp (hk ▸ List.mem_map_of_mem he)
  exact spelledAt_iff hkey.symm (ha.identifiers name hn) h.2

theorem keys_of_spelledAt {es : Entries Value} {xs : List (MemberName × Option Member)}
    (h : List.Forall₂ Member.SpelledAt es xs) :
    es.map (·.1) = (xs.map (·.1.text)).map .str ∧
      xs.map (·.1.key) = (xs.map (·.1.text)).map .str := by
  induction h with
  | nil => exact ⟨rfl, rfl⟩
  | cons he _ ih =>
    obtain ⟨name, m, hk, rfl, -⟩ := he
    simp only [List.map_cons, hk, ih.1, ih.2]
    exact ⟨rfl, rfl⟩

theorem foldl_putMember_of_admits {policy : NamingPolicy} {es : Entries Value}
    {xs : List (MemberName × Option Member)} (h : List.Forall₂ Member.SpelledAt es xs)
    (ha : MemberNames.Admits policy (xs.map (·.1.text))) : xs.foldl putMember [] = xs := by
  have hd := (Entries.distinct_iff _).mp ha.distinct
  rw [← (keys_of_spelledAt h).2] at hd
  rw [foldl_putMember [] xs (by simpa using hd), List.nil_append]

theorem memberMap_yields_iff {policy : NamingPolicy} {value : Value} {items : List Value}
    {found : Option (List (MemberName × Option Member))} (hi : value.items? = some items) :
    (memberMap policy value).Yields found ↔ ∃ es names os, Value.keyedEntries items = .ok es ∧
      es.map (·.1) = names.map .str ∧ MemberNames.Admits policy names ∧
      List.Forall₂ (fun e o => (memberEntry e.1.toValue e.2).Yields o) es os ∧
      found = some (os.foldl putMember []) := by
  unfold memberMap
  simp only [hi, Traced.yields_bind_iff, Traced.yields_lift_iff, Traced.yields_emit_iff,
    Traced.yields_each_iff, Traced.yields_pure_iff, MemberNames.issues_eq_nil_iff]
  constructor
  · rintro ⟨split, hsplit, -, ⟨names, hkeys, ha⟩, os, hos, rfl⟩
    obtain ⟨es, rfl, hes⟩ := exists_entries_of_texts hkeys
    rw [List.forall₂_map_left_iff] at hos
    exact ⟨es, names, os, splitAll_eq_ok_iff.mp hsplit, hes, ha, hos, rfl⟩
  · rintro ⟨es, names, os, hkeyed, hes, ha, hos, rfl⟩
    rw [← splitAll_eq_ok_iff] at hkeyed
    refine ⟨_, hkeyed, (), ⟨names, ?_, ha⟩, os, by rwa [List.forall₂_map_left_iff], rfl⟩
    have hv := congrArg (List.map Key.toValue) hes
    simpa [Function.comp_def, Key.toValue] using hv

theorem memberMap_exact [Visiting] {policy : NamingPolicy} {value plain : Value}
    {found : Option (List (MemberName × Option Member))} (hp : value.HasPlain plain) :
    Check.mapOf Check.member plain = [] ∧ (memberMap policy value).Yields found ↔
      ∃ xs, found = some xs ∧ ∃ es, value.Lists es ∧
        MemberNames.Admits policy (xs.map (·.1.text)) ∧ List.Forall₂ Member.SpelledAt es xs := by
  rw [Check.mapOf_eq_nil_iff]
  constructor
  · rintro ⟨⟨ps, rfl, hc⟩, hr⟩
    obtain ⟨items, hi⟩ : ∃ items, value.items? = some items := by
      rw [← Option.isSome_iff_exists, Value.items?_isSome, hp.hasEntries]
    obtain ⟨es, names, os, hkeyed, hk, ha, hos, rfl⟩ := (memberMap_yields_iff hi).mp hr
    have hl : value.Lists es := Value.lists_iff.mpr ⟨items, hi, hkeyed⟩
    obtain ⟨qs, hq, hqs⟩ := (hl.hasPlain_iff (hk ▸ ha.distinct)).mp hp
    cases hqs
    have hs := (each_memberEntry_exact hk ha hq).mp ⟨hc, hos⟩
    obtain rfl : os.map (·.1.text) = names :=
      List.map_injective_iff.mpr (fun a b h => by simpa using h)
        ((keys_of_spelledAt hs).1.symm.trans hk)
    exact ⟨os, by rw [foldl_putMember_of_admits hs ha], es, hl, ha, hs⟩
  · rintro ⟨xs, rfl, es, hl, ha, hs⟩
    have hk := (keys_of_spelledAt hs).1
    obtain ⟨ps, hq, rfl⟩ := (hl.hasPlain_iff (hk ▸ ha.distinct)).mp hp
    obtain ⟨hc, hos⟩ := (each_memberEntry_exact hk ha hq).mpr hs
    obtain ⟨items, hi, hkeyed⟩ := Value.lists_iff.mp hl
    exact ⟨⟨ps, rfl, hc⟩, (memberMap_yields_iff hi).mpr
      ⟨es, _, xs, hkeyed, hk, ha, hos, by rw [foldl_putMember_of_admits hs ha]⟩⟩

end ServiceModel.Reading
