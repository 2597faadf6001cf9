import Mathlib.Data.List.Nodup
import ServiceModel.Proofs.Correspondence
import ServiceModel.Value.Entries

/-!
# Laws of entries

Look-up by name, mappings whose keys do not repeat, and entries that correspond one to one. A
mapping that has only some known names for keys holds, up to order, what a look-up of those names
finds.
-/
namespace ServiceModel

theorem Scalar.same_comm (a b : Scalar) : a.same b = b.same a := by
  unfold same
  cases ha : a.integral? <;> cases hb : b.integral?
  · dsimp only
    by_cases h : a = b
    · rw [h]
    · simp [h, Ne.symm h]
  · rfl
  · rfl
  · exact Bool.beq_comm

namespace Key

mutual

theorem same_comm : ∀ k l : Key, k.same l = l.same k
  | .scalar a, .scalar b => Scalar.same_comm a b
  | .scalar _, .tuple _ => rfl
  | .tuple _, .scalar _ => rfl
  | .tuple ks, .tuple ls => sameAll_comm ks ls

theorem sameAll_comm : ∀ ks ls : List Key, sameAll ks ls = sameAll ls ks
  | [], [] => rfl
  | [], _ :: _ => rfl
  | _ :: _, [] => rfl
  | k :: ks, l :: ls => by simp [sameAll, same_comm k l, sameAll_comm ks ls]

end

theorem same_str_iff {key : Key} {name : String} :
    key.same (.str name) = true ↔ key = .str name := by
  rcases key with (_ | _ | _ | x | s) | keys
  · simp [same, Scalar.same, Scalar.integral?]
  · simp [same, Scalar.same, Scalar.integral?]
  · simp [same, Scalar.same, Scalar.integral?]
  · cases h : x.integral? <;> simp [same, Scalar.same, Scalar.integral?, h]
  · simp [same, Scalar.same_str]
  · simp [same]

theorem str_same_iff {key : Key} {name : String} :
    (Key.str name).same key = true ↔ key = .str name := by
  rcases key with (_ | _ | _ | x | s) | keys
  · simp [same, Scalar.same, Scalar.integral?]
  · simp [same, Scalar.same, Scalar.integral?]
  · simp [same, Scalar.same, Scalar.integral?]
  · cases h : x.integral? <;> simp [same, Scalar.same, Scalar.integral?, h]
  · simp [same, Scalar.same_str, eq_comm]
  · simp [same]

theorem str_same_self (name : String) : (Key.str name).same (.str name) = true :=
  same_str_iff.mpr rfl

def IsText (key : Key) : Prop := ∃ name, key = .str name

end Key

namespace Entries
variable {α β : Type} {es : Entries α} {fs : Entries β} {name : String}

theorem field?_cons (key : Key) (value : α) (rest : Entries α) (name : String) :
    field? ((key, value) :: rest) name = if key = .str name then some value
      else field? rest name := by
  by_cases h : key = .str name
  · simp [field?, get?, h, Key.same_str_iff.mpr]
  · have hs : key.same (.str name) = false := by
      simpa using mt Key.same_str_iff.mp h
    simp [field?, get?, h, hs]

theorem mem_of_field? {value : α} (h : es.field? name = some value) : (.str name, value) ∈ es := by
  induction es with
  | nil => cases h
  | cons e rest ih =>
    obtain ⟨k, v⟩ := e
    rw [field?_cons] at h
    split at h
    · rename_i hk
      cases h
      simp [hk]
    · exact List.mem_cons_of_mem _ (ih h)

theorem field?_eq_none_iff : es.field? name = none ↔ ∀ e ∈ es, e.1 ≠ .str name := by
  induction es with
  | nil => simp [field?, get?]
  | cons e rest ih =>
    obtain ⟨k, v⟩ := e
    by_cases hk : k = .str name <;> simp [field?_cons, hk, ih]

/-! Keys that do not repeat. -/

theorem distinct_cons_iff (key : Key) (value : α) (rest : Entries α) :
    distinct (((key, value) :: rest).map (·.1)) = true ↔
      (∀ e ∈ rest, key.same e.1 = false) ∧ distinct (rest.map (·.1)) = true := by
  simp [distinct]

/-- Entries whose keys do not repeat can be put into any order. -/
theorem pairwise_of_perm (hd : distinct (es.map (·.1)) = true) {others : Entries α}
    (h : others.Perm es) : others.Pairwise fun e f => e.1.same f.1 = false := by
  have pairs := List.pairwise_map.mp ((distinct_iff _).mp hd)
  exact (h.pairwise_iff fun {e f} he => (Key.same_comm f.1 e.1).trans he).mpr pairs

theorem distinct_texts_iff {names : List String} :
    distinct (names.map .str) = true ↔ names.Nodup := by
  rw [distinct_iff, List.pairwise_map, List.Nodup]
  have same : ∀ {a b : String}, (Key.str a).same (.str b) = false ↔ a ≠ b := by
    intro a b
    rw [← Bool.not_eq_true, Key.same_str_iff]
    simp
  exact ⟨fun h => h.imp same.mp, fun h => h.imp same.mpr⟩

theorem field?_of_mem (hd : distinct (es.map (·.1)) = true) {value : α}
    (h : (.str name, value) ∈ es) : es.field? name = some value := by
  induction es with
  | nil => cases h
  | cons e rest ih =>
    obtain ⟨k, v⟩ := e
    obtain ⟨hk, hr⟩ := (distinct_cons_iff k v rest).mp hd
    rw [field?_cons]
    rcases List.mem_cons.mp h with he | he
    · cases he
      simp
    · have hne : k ≠ .str name := by
        rintro rfl
        have hs : (Key.str name).same (.str name) = false := hk _ he
        rw [Key.str_same_self] at hs
        cases hs
      rw [if_neg hne]
      exact ih hr he

/-- An entry is found under its key if the key equals itself, which an undefined number does not. -/
theorem get?_of_mem (hd : distinct (es.map (·.1)) = true) {e : Key × α} (he : e ∈ es)
    (hs : e.1.same e.1 = true) : es.get? e.1 = some e.2 := by
  induction es with
  | nil => cases he
  | cons d rest ih =>
    obtain ⟨k, v⟩ := d
    obtain ⟨hk, hr⟩ := (distinct_cons_iff k v rest).mp hd
    rcases List.mem_cons.mp he with rfl | he
    · exact if_pos hs
    · rw [get?, hk e he]
      exact ih hr he

theorem exists_mem_of_get? {key : Key} {value : α} (h : es.get? key = some value) :
    ∃ e ∈ es, e.1.same key = true ∧ e.2 = value := by
  induction es with
  | nil => cases h
  | cons d rest ih =>
    obtain ⟨k, v⟩ := d
    unfold get? at h
    split at h
    · rename_i hs
      exact ⟨_, List.mem_cons_self, hs, Option.some.inj h⟩
    · obtain ⟨e, he, found⟩ := ih h
      exact ⟨e, List.mem_cons_of_mem _ he, found⟩

/-- What is found under the key of an entry is the entry itself. -/
theorem eq_of_get? (hd : distinct (es.map (·.1)) = true) {e : Key × α} (he : e ∈ es) {value : α}
    (h : es.get? e.1 = some value) : e.1.same e.1 = true ∧ value = e.2 := by
  induction es with
  | nil => cases he
  | cons d rest ih =>
    obtain ⟨k, v⟩ := d
    obtain ⟨hk, hr⟩ := (distinct_cons_iff k v rest).mp hd
    unfold get? at h
    rcases List.mem_cons.mp he with rfl | he
    · split at h
      · rename_i hs
        exact ⟨hs, (Option.some.inj h).symm⟩
      · obtain ⟨f, hf, hs, -⟩ := exists_mem_of_get? h
        rw [Key.same_comm, hk f hf] at hs
        cases hs
    · rw [if_neg (by simp [hk e he])] at h
      exact ih hr he h

theorem distinct_insert (hd : distinct (es.map (·.1)) = true) (key : Key) (value : α) :
    distinct ((es.insert key value).map (·.1)) = true := by
  have kept : ∀ (rest : Entries α) (k : Key), k.same key = false →
      (∀ e ∈ rest, k.same e.1 = false) → ∀ e ∈ rest.insert key value, k.same e.1 = false := by
    intro rest k hk h
    induction rest with
    | nil => simpa [insert] using hk
    | cons e more ih =>
      obtain ⟨l, w⟩ := e
      have hl := h (l, w) List.mem_cons_self
      have hm := fun e he => h e (List.mem_cons_of_mem _ he)
      unfold insert
      split
      · simpa [hl] using hm
      · simpa [hl] using ih hm
  induction es with
  | nil => simp [insert, distinct]
  | cons e rest ih =>
    obtain ⟨k, v⟩ := e
    obtain ⟨hk, hr⟩ := (distinct_cons_iff k v rest).mp hd
    unfold insert
    split
    · exact (distinct_cons_iff k value rest).mpr ⟨hk, hr⟩
    · rename_i hs
      exact (distinct_cons_iff k v _).mpr ⟨kept rest k (by simpa using hs) hk, ih hr⟩

theorem field?_insert (es : Entries α) (name : String) (value : α) (other : String) :
    (es.insert (.str name) value).field? other =
      if name = other then some value else es.field? other := by
  induction es with
  | nil => simp [insert, field?_cons]
  | cons e rest ih =>
    obtain ⟨k, v⟩ := e
    by_cases hk : k = .str name
    · by_cases h : name = other <;> simp [insert, field?_cons, hk, Key.same_str_iff, h]
    · rw [insert, if_neg (mt Key.same_str_iff.mp hk), field?_cons, field?_cons, ih]
      by_cases h : name = other
      · subst h
        simp [hk]
      · simp [h]

theorem field?_insert_of_ne {key : Key} {name : String} (h : key ≠ .str name) (es : Entries α)
    (value : α) : (es.insert key value).field? name = es.field? name := by
  induction es with
  | nil => rw [insert, field?_cons, if_neg h]
  | cons e rest ih =>
    obtain ⟨k, v⟩ := e
    unfold insert
    split
    · rename_i hs
      have hk : k ≠ .str name := by
        rintro rfl
        exact h (Key.str_same_iff.mp hs)
      rw [field?_cons, field?_cons, if_neg hk, if_neg hk]
    · rw [field?_cons, field?_cons, ih]

/-- What a mapping made of items holds under a name was among them under that name. -/
theorem mem_of_field?_ofList {items : List (Key × α)} {name : String} {value : α}
    (h : (ofList items).field? name = some value) : (.str name, value) ∈ items := by
  have run : ∀ (items : List (Key × α)) (es : Entries α),
      (items.foldl (fun es item => insert es item.1 item.2) es).field? name = some value →
        (.str name, value) ∈ items ∨ es.field? name = some value := by
    intro items
    induction items with
    | nil => exact fun _ h => .inr h
    | cons item rest ih =>
      intro es h
      obtain ⟨key, v⟩ := item
      rcases ih _ h with h | h
      · exact .inl (List.mem_cons_of_mem _ h)
      by_cases hk : key = .str name
      · subst hk
        rw [field?_insert, if_pos rfl] at h
        obtain rfl := Option.some.inj h
        exact .inl List.mem_cons_self
      · rw [field?_insert_of_ne hk] at h
        exact .inr h
  exact (run items [] h).resolve_right (by simp [field?, get?])

theorem distinct_ofList (items : List (Key × α)) :
    distinct ((ofList items).map (·.1)) = true := by
  have run : ∀ (items : List (Key × α)) (es : Entries α), distinct (es.map (·.1)) = true →
      distinct ((items.foldl (fun es item => insert es item.1 item.2) es).map (·.1)) = true := by
    intro items
    induction items with
    | nil => exact fun _ h => h
    | cons item rest ih => exact fun es h => ih _ (distinct_insert h item.1 item.2)
  exact run items [] rfl

theorem keys_insert_subset (es : Entries α) (key : Key) (value : α) :
    (es.insert key value).map (·.1) ⊆ es.map (·.1) ++ [key] := by
  induction es with
  | nil => simp [insert]
  | cons e rest ih =>
    obtain ⟨k, v⟩ := e
    unfold insert
    split
    · exact List.cons_subset_cons k (List.subset_append_left _ _)
    · exact List.cons_subset_cons k ih

theorem values_insert_subset (es : Entries α) (key : Key) (value : α) :
    (es.insert key value).map (·.2) ⊆ es.map (·.2) ++ [value] := by
  induction es with
  | nil => simp [insert]
  | cons e rest ih =>
    obtain ⟨k, v⟩ := e
    unfold insert
    split
    · intro w hw
      rcases List.mem_cons.mp hw with rfl | hw
      · simp
      · exact List.mem_append_left _ (List.mem_cons_of_mem _ hw)
    · exact List.cons_subset_cons v ih

/-- A mapping made of items has its keys and its values from them. -/
theorem sides_of_mem_ofList {items : List (Key × α)} {e : Key × α} (h : e ∈ ofList items) :
    e.1 ∈ items.map (·.1) ∧ e.2 ∈ items.map (·.2) := by
  have run : ∀ (items : List (Key × α)) (es : Entries α),
      (items.foldl (fun es item => insert es item.1 item.2) es).map (·.1)
          ⊆ es.map (·.1) ++ items.map (·.1) ∧
        (items.foldl (fun es item => insert es item.1 item.2) es).map (·.2)
          ⊆ es.map (·.2) ++ items.map (·.2) := by
    intro items
    induction items with
    | nil => simp
    | cons item rest ih =>
      intro es
      obtain ⟨hk, hv⟩ := ih (es.insert item.1 item.2)
      have keys := keys_insert_subset es item.1 item.2
      have values := values_insert_subset es item.1 item.2
      rw [List.map_cons, List.map_cons, List.append_cons (es.map _) item.1,
        List.append_cons (es.map _) item.2]
      exact ⟨List.Subset.trans hk (List.append_subset.mpr
          ⟨List.subset_append_of_subset_left _ keys, List.subset_append_right _ _⟩),
        List.Subset.trans hv (List.append_subset.mpr
          ⟨List.subset_append_of_subset_left _ values, List.subset_append_right _ _⟩)⟩
  obtain ⟨hk, hv⟩ := run items []
  exact ⟨hk (List.mem_map_of_mem h), hv (List.mem_map_of_mem h)⟩

theorem insert_ne_nil (es : Entries α) (key : Key) (value : α) : es.insert key value ≠ [] := by
  cases es with
  | nil => simp [insert]
  | cons e rest =>
    unfold insert
    split <;> simp

theorem eq_nil_of_ofList_eq_nil {items : List (Key × α)} (h : ofList items = []) : items = [] := by
  have run : ∀ (items : List (Key × α)) (es : Entries α), es ≠ [] →
      items.foldl (fun es item => insert es item.1 item.2) es ≠ [] := by
    intro items
    induction items with
    | nil => exact fun _ h => h
    | cons item rest ih => exact fun es _ => ih _ (insert_ne_nil es item.1 item.2)
  cases items with
  | nil => rfl
  | cons item rest => exact absurd h (run rest _ (insert_ne_nil [] item.1 item.2))

/-- Writing keeps every key and leaves one for the key written. -/
theorem exists_mem_insert (es : Entries α) (key : Key) (value : α) :
    (∀ e ∈ es, ∃ f ∈ es.insert key value, f.1 = e.1) ∧
      ∃ f ∈ es.insert key value, f.1 = key ∨ f.1.same key = true := by
  induction es with
  | nil => simp [insert]
  | cons e rest ih =>
    obtain ⟨k, v⟩ := e
    unfold insert
    split
    · rename_i hs
      refine ⟨fun e he => ?_, ⟨_, List.mem_cons_self, .inr hs⟩⟩
      rcases List.mem_cons.mp he with rfl | he
      · exact ⟨_, List.mem_cons_self, rfl⟩
      · exact ⟨e, List.mem_cons_of_mem _ he, rfl⟩
    · obtain ⟨kept, f, hf, hk⟩ := ih
      refine ⟨fun e he => ?_, f, List.mem_cons_of_mem _ hf, hk⟩
      rcases List.mem_cons.mp he with rfl | he
      · exact ⟨_, List.mem_cons_self, rfl⟩
      · obtain ⟨g, hg, hge⟩ := kept e he
        exact ⟨g, List.mem_cons_of_mem _ hg, hge⟩

/-- A mapping made of items has a key for each of them. -/
theorem exists_mem_ofList {items : List (Key × α)} {e : Key × α} (h : e ∈ items) :
    ∃ f ∈ ofList items, f.1 = e.1 ∨ f.1.same e.1 = true := by
  have run : ∀ (items : List (Key × α)) (es : Entries α) (key : Key),
      ((∃ f ∈ es, f.1 = key ∨ f.1.same key = true) ∨ ∃ e ∈ items, e.1 = key) →
      ∃ f ∈ items.foldl (fun es item => insert es item.1 item.2) es,
        f.1 = key ∨ f.1.same key = true := by
    intro items
    induction items with
    | nil => simp
    | cons item rest ih =>
      intro es key hkey
      obtain ⟨kept, new⟩ := exists_mem_insert es item.1 item.2
      refine ih _ key ?_
      rcases hkey with ⟨f, hf, hk⟩ | ⟨e, he, hk⟩
      · obtain ⟨g, hg, hgf⟩ := kept f hf
        exact .inl ⟨g, hg, hgf ▸ hk⟩
      rcases List.mem_cons.mp he with rfl | he
      · exact .inl (hk ▸ new)
      · exact .inr ⟨e, he, hk⟩
  exact run items [] e.1 (.inr ⟨e, h, rfl⟩)

theorem forall_isText_ofList_iff {items : List (Key × α)} :
    (∀ e ∈ ofList items, e.1.IsText) ↔ ∀ e ∈ items, e.1.IsText := by
  constructor
  · intro h e he
    obtain ⟨f, hf, hk⟩ := exists_mem_ofList he
    obtain ⟨name, hname⟩ := h f hf
    rcases hk with hk | hk
    · exact ⟨name, hk ▸ hname⟩
    · rw [hname, Key.str_same_iff] at hk
      exact ⟨name, hk⟩
  · intro h e he
    obtain ⟨f, hf, hk⟩ := List.mem_map.mp (sides_of_mem_ofList he).1
    exact hk ▸ h f hf

/-! Entries under names that are known, in the order of the names. -/

/-- What is held under the names, in their order. -/
def tabulate (names : List String) (held : String → Option α) : Entries α :=
  names.filterMap fun name => (held name).map fun value => (.str name, value)

theorem mem_tabulate_iff {names : List String} {held : String → Option α} {e : Key × α} :
    e ∈ tabulate names held ↔ ∃ name ∈ names, e.1 = .str name ∧ held name = some e.2 := by
  obtain ⟨key, value⟩ := e
  simp only [tabulate, List.mem_filterMap, Option.map_eq_some_iff, Prod.mk.injEq]
  constructor
  · rintro ⟨name, hn, v, hv, rfl, rfl⟩
    exact ⟨name, hn, rfl, hv⟩
  · rintro ⟨name, hn, rfl, hv⟩
    exact ⟨name, hn, value, hv, rfl, rfl⟩

theorem field?_tabulate {names : List String} {held : String → Option α} {name : String}
    (hn : name ∈ names) : (tabulate names held).field? name = held name := by
  cases hv : (tabulate names held).field? name with
  | none =>
    cases hh : held name with
    | none => rfl
    | some value =>
      have he : (.str name, value) ∈ tabulate names held :=
        mem_tabulate_iff.mpr ⟨name, hn, rfl, hh⟩
      exact absurd rfl (field?_eq_none_iff.mp hv _ he)
  | some value =>
    obtain ⟨other, -, hk, hh⟩ := mem_tabulate_iff.mp (mem_of_field? hv)
    cases hk
    exact hh.symm

/-- A mapping that has only these names for keys holds what a look-up of them finds. -/
theorem perm_tabulate {names : List String} (hn : names.Nodup)
    (hd : distinct (es.map (·.1)) = true) (hk : ∀ e ∈ es, ∃ name ∈ names, e.1 = .str name) :
    es.Perm (tabulate names es.field?) := by
  have hp := List.pairwise_map.mp ((distinct_iff _).mp hd)
  have nodup : es.Nodup := by
    refine hp.imp_of_mem fun {a b} ha _ hab heq => ?_
    obtain ⟨name, -, hname⟩ := hk a ha
    subst heq
    rw [hname, Key.str_same_self] at hab
    cases hab
  have nodup_table : (tabulate names es.field?).Nodup := by
    refine List.Nodup.filterMap (fun a b e ha hb => ?_) hn
    obtain ⟨v, -, rfl⟩ := Option.map_eq_some_iff.mp ha
    obtain ⟨w, -, hw⟩ := Option.map_eq_some_iff.mp hb
    simpa using (congrArg Prod.fst hw).symm
  refine (List.perm_ext_iff_of_nodup nodup nodup_table).mpr fun e => ?_
  rw [mem_tabulate_iff]
  constructor
  · intro he
    obtain ⟨name, hname, hkey⟩ := hk e he
    exact ⟨name, hname, hkey, field?_of_mem hd (by rw [← hkey]; exact he)⟩
  · rintro ⟨name, -, hkey, hv⟩
    have he := mem_of_field? hv
    rwa [← hkey] at he

/-! Entries that correspond one to one, under the same keys. -/

/-- Values under the same keys relate as `R` says for their key. -/
def PointwiseAt (R : Key → α → β → Prop) : Entries α → Entries β → Prop :=
  List.Forall₂ fun e f => e.1 = f.1 ∧ R e.1 e.2 f.2

abbrev Pointwise (R : α → β → Prop) : Entries α → Entries β → Prop := PointwiseAt fun _ => R

namespace PointwiseAt
variable {R : Key → α → β → Prop}

theorem keys (h : PointwiseAt R es fs) : es.map (·.1) = fs.map (·.1) := by
  induction h with
  | nil => rfl
  | cons he _ ih => simp [he.1, ih]

theorem field? (h : PointwiseAt R es fs) (name : String) :
    Option.Rel (R (.str name)) (es.field? name) (fs.field? name) := by
  induction h with
  | nil => exact .none
  | @cons e f rest more he _ ih =>
    obtain ⟨k, v⟩ := e
    obtain ⟨l, w⟩ := f
    obtain ⟨rfl, hR⟩ := he
    rw [field?_cons, field?_cons]
    split
    · rename_i hk
      subst hk
      exact .some hR
    · exact ih

theorem field?_of_left (h : PointwiseAt R es fs) {name : String} {v : α}
    (hv : es.field? name = some v) : ∃ w, fs.field? name = some w ∧ R (.str name) v w := by
  have hr := h.field? name
  rw [hv] at hr
  cases hf : fs.field? name with
  | none => rw [hf] at hr; cases hr
  | some w =>
    rw [hf] at hr
    cases hr with
    | some hR => exact ⟨w, rfl, hR⟩

theorem flip (h : PointwiseAt R es fs) : PointwiseAt (fun k w v => R k v w) fs es := by
  refine List.Forall₂.flip (h.imp ?_)
  rintro e f ⟨hk, hR⟩
  exact ⟨hk.symm, hk ▸ hR⟩

theorem field?_of_right (h : PointwiseAt R es fs) {name : String} {w : β}
    (hw : fs.field? name = some w) : ∃ v, es.field? name = some v ∧ R (.str name) v w :=
  h.flip.field?_of_left hw

theorem field?_none (h : PointwiseAt R es fs) {name : String} (hn : es.field? name = none) :
    fs.field? name = none := by
  have hr := h.field? name
  rw [hn] at hr
  cases hf : fs.field? name with
  | none => rfl
  | some w => rw [hf] at hr; cases hr

theorem forall_keys_iff (h : PointwiseAt R es fs) (P : Key → Prop) :
    (∀ e ∈ es, P e.1) ↔ ∀ f ∈ fs, P f.1 := by
  have hk := h.keys
  have left : (∀ k ∈ es.map (·.1), P k) ↔ ∀ e ∈ es, P e.1 := List.forall_mem_map
  have right : (∀ k ∈ fs.map (·.1), P k) ↔ ∀ f ∈ fs, P f.1 := List.forall_mem_map
  rw [← left, ← right, hk]

theorem tabulate {names : List String} {held : String → Option α} {other : String → Option β}
    (h : ∀ name ∈ names, Option.Rel (R (.str name)) (held name) (other name)) :
    PointwiseAt R (tabulate names held) (tabulate names other) := by
  induction names with
  | nil => exact .nil
  | cons name rest ih =>
    have hr := ih fun n hn => h n (List.mem_cons_of_mem _ hn)
    have hname := h name List.mem_cons_self
    unfold Entries.tabulate
    rw [List.filterMap_cons, List.filterMap_cons]
    cases hv : held name with
    | none =>
      rw [hv] at hname
      cases hw : other name with
      | none => exact hr
      | some w => rw [hw] at hname; cases hname
    | some v =>
      rw [hv] at hname
      cases hw : other name with
      | none => rw [hw] at hname; cases hname
      | some w =>
        rw [hw] at hname
        cases hname with
        | some hR => exact .cons ⟨rfl, hR⟩ hr

end PointwiseAt

namespace Pointwise
variable {R : α → β → Prop}

theorem nil_left_iff : Pointwise R [] fs ↔ fs = [] := List.forall₂_nil_left_iff

theorem nil_right_iff : Pointwise R es [] ↔ es = [] := List.forall₂_nil_right_iff

theorem cons_iff {e : Key × α} {f : Key × β} :
    Pointwise R (e :: es) (f :: fs) ↔ (e.1 = f.1 ∧ R e.2 f.2) ∧ Pointwise R es fs :=
  List.forall₂_cons

theorem of_forall_exists {es : Entries α} (h : ∀ e ∈ es, ∃ w, R e.2 w) :
    ∃ fs, Pointwise R es fs := by
  refine List.Forall₂.of_forall_exists fun e he => ?_
  obtain ⟨w, hw⟩ := h e he
  exact ⟨(e.1, w), rfl, hw⟩

theorem insert (h : Pointwise R es fs) (key : Key) {v : α} {w : β} (hR : R v w) :
    Pointwise R (es.insert key v) (fs.insert key w) := by
  induction h with
  | nil => exact .cons ⟨rfl, hR⟩ .nil
  | @cons e f rest more he hrest ih =>
    obtain ⟨k, v'⟩ := e
    obtain ⟨l, w'⟩ := f
    obtain ⟨rfl, hR'⟩ := he
    unfold Entries.insert
    split
    · exact .cons ⟨rfl, hR⟩ hrest
    · exact .cons ⟨rfl, hR'⟩ ih

theorem ofList {items : List (Key × α)} {others : List (Key × β)} (h : Pointwise R items others) :
    Pointwise R (Entries.ofList items) (Entries.ofList others) := by
  have run : ∀ es fs, Pointwise R es fs →
      Pointwise R (items.foldl (fun es item => Entries.insert es item.1 item.2) es)
        (others.foldl (fun fs item => Entries.insert fs item.1 item.2) fs) := by
    induction h with
    | nil => exact fun _ _ h => h
    | @cons e f rest more he _ ih =>
      intro es fs h
      have hi := h.insert e.1 he.2
      rw [List.foldl_cons, List.foldl_cons, ← he.1]
      exact ih _ _ hi
  exact run [] [] .nil

end Pointwise

end Entries

end ServiceModel
