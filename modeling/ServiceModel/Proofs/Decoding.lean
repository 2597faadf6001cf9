import ServiceModel.Proofs.Naming
import ServiceModel.Proofs.NormalForms

/-!
# What a decoder makes of the entries it reads

A decoder reads the entries of a mapping one by one. If they have as many keys as there are entries,
it writes them into a map, else it keeps them in a pair list. Both read back as the entries that
went in. The plain form forgets those that are overwritten: each key stands where it was read first,
with the plain form of what was read last.
-/
namespace ServiceModel

namespace Value
variable {v p : Value} {es : Entries Value}

theorem Maps.eq_nil_of_pairs {items : List Value} (h : Maps (.pairs items) es) : es = [] := by
  cases h
  rfl

/-- The plain form of a mapping has each key where it first stands, with the plain form of what
stands last under it. Also what is overwritten must have a plain form. -/
theorem Lists.toPlain_eq_ok_iff (h : v.Lists es)
    (hd : v.Maps es → Entries.distinct (es.map (·.1)) = true) :
    v.toPlain = .ok p ↔ ∃ qs, Entries.Pointwise HasPlain es qs ∧
      p = .map ((Entries.firsts qs).map fun e => (e.1, (Entries.last? qs e.1).getD e.2)) := by
  simp only [← Entries.ofList_eq]
  exact h.hasPlain_ofList_iff hd

theorem Lists.exists_hasPlain (h : v.Lists es)
    (hd : v.Maps es → Entries.distinct (es.map (·.1)) = true)
    (hw : ∀ e ∈ es, e.2.isWellFormed = true) : ∃ p, v.HasPlain p := by
  obtain ⟨qs, hq⟩ := Entries.Pointwise.of_forall_exists (R := HasPlain) fun e he =>
    exists_hasPlain_of_isWellFormed (hw e he)
  exact ⟨_, (h.hasPlain_ofList_iff hd).mpr ⟨qs, hq, rfl⟩⟩

end Value

/-- Entries under any keys are made into one mapping: into the map that comes of writing them one
after another if they have as many keys as there are entries, which means that the keys are
distinct, and into a pair list if not. All of them can be read back from it in their order. Its
plain form exists exactly if each of the values has one, as all values that keep the rules of
decoding have. It is the map of the distinct keys in the order in which they first came, each with
the plain form of its last value. -/
theorem mapping_keeps_entries (es : Entries Value) :
    let items := es.map fun e => Value.entry e.1.toValue e.2
    ∃ mapping, Value.mappingOfParts (.list items) = .ok mapping ∧
      mapping = (if (Entries.firsts es).length = es.length then .map (Entries.ofList es)
        else .pairs items) ∧
      mapping.items? = some items ∧
      (mapping = .map es ↔ (es.map (·.1)).Pairwise fun k l => k.same l = false) ∧
      (mapping = .pairs items ↔ ¬ (es.map (·.1)).Pairwise fun k l => k.same l = false) ∧
      (∀ p, mapping.toPlain = .ok p ↔ ∃ qs, Entries.Pointwise Value.HasPlain es qs ∧
        p = .map ((Entries.firsts qs).map fun e => (e.1, (Entries.last? qs e.1).getD e.2))) ∧
      ((∀ e ∈ es, e.2.isWellFormed = true) → ∃ p, mapping.toPlain = .ok p) := by
  intro items
  have decoded := Value.ofEntries_entry es
  have sizes := Entries.length_firsts_eq_iff es
  rw [← Entries.distinct_iff]
  by_cases hd : Entries.distinct (es.map (·.1)) = true
  · have written : (if (Entries.firsts es).length = es.length then Value.map (Entries.ofList es)
        else .pairs items) = .map es := by
      rw [if_pos (sizes.mpr hd), Entries.ofList_of_distinct es hd]
    have lists : (Value.map es).Lists es := .map es
    rw [if_pos hd] at decoded
    exact ⟨.map es, decoded, written.symm, rfl, iff_of_true rfl hd,
      iff_of_false Value.noConfusion (not_not.mpr hd),
      fun p => lists.toPlain_eq_ok_iff fun _ => hd, lists.exists_hasPlain fun _ => hd⟩
  · have kept : (if (Entries.firsts es).length = es.length then Value.map (Entries.ofList es)
        else .pairs items) = .pairs items := if_neg (mt sizes.mp hd)
    have lists : (Value.pairs items).Lists es := .pairs (Value.keyedEntries_entry es)
    have no_map : (Value.pairs items).Maps es → Entries.distinct (es.map (·.1)) = true :=
      fun hm => hm.eq_nil_of_pairs ▸ rfl
    rw [if_neg hd] at decoded
    exact ⟨.pairs items, decoded, kept.symm, rfl, iff_of_false Value.noConfusion hd,
      iff_of_true rfl hd, fun p => lists.toPlain_eq_ok_iff no_map, lists.exists_hasPlain no_map⟩

/-- A key that comes again as the truth value that equals it, over a value that is a pair list; then
two keys that differ only in their types. -/
theorem mapping_keeps_entries_of_three :
    (∃ (es : Entries Value) (mapping p : Value),
      es = [(.int 1, .tuple [.int 0]), (.str "k", .frozen []),
        (.scalar (.bool true), .pairs [.entry (.str "z") .null, .entry (.str "z") (.tuple [])])] ∧
      p = .map [(.int 1, .map [(.str "z", .list [])]), (.str "k", .map [])] ∧
      (∀ e ∈ es, e.2.isWellFormed = true) ∧
      Value.mappingOfParts (.list (es.map fun e => .entry e.1.toValue e.2)) = .ok mapping ∧
      mapping.items? = some (es.map fun e => .entry e.1.toValue e.2) ∧
      mapping = .pairs (es.map fun e => .entry e.1.toValue e.2) ∧ mapping.toPlain = .ok p) ∧
    ∃ (es : Entries Value) (mapping p : Value),
      es = [(.int 1, .tuple [.int 0]), (.str "1", .frozen [])] ∧
      p = .map [(.int 1, .list [.int 0]), (.str "1", .map [])] ∧
      (∀ e ∈ es, e.2.isWellFormed = true) ∧
      Value.mappingOfParts (.list (es.map fun e => .entry e.1.toValue e.2)) = .ok mapping ∧
      mapping.items? = some (es.map fun e => .entry e.1.toValue e.2) ∧
      mapping = .map es ∧ mapping.toPlain = .ok p := by
  constructor
  · obtain ⟨mapping, made, -, read, -, -, -, ends⟩ := mapping_keeps_entries
      [(.int 1, .tuple [.int 0]), (.str "k", .frozen []), (.scalar (.bool true),
        .pairs [.entry (.str "z") .null, .entry (.str "z") (.tuple [])])]
    obtain ⟨p, hp⟩ := ends (by decide)
    obtain rfl := Except.ok.inj made
    obtain rfl := Except.ok.inj hp
    exact ⟨_, _, _, rfl, rfl, by decide, made, read, rfl, hp⟩
  · obtain ⟨mapping, made, -, read, -, -, -, ends⟩ := mapping_keeps_entries
      [(.int 1, .tuple [.int 0]), (.str "1", .frozen [])]
    obtain ⟨p, hp⟩ := ends (by decide)
    obtain rfl := Except.ok.inj made
    obtain rfl := Except.ok.inj hp
    exact ⟨_, _, _, rfl, rfl, by decide, made, read, rfl, hp⟩

end ServiceModel
