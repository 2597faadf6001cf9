import ServiceModel.Value.Key

/-!
# Entries in insertion order

A mapping is a list of entries in the order in which their keys first came. Writing to a key that
is there keeps the key and its place and replaces the value.
-/
namespace ServiceModel

abbrev Entries (α : Type) := List (Key × α)

namespace Entries
variable {α β : Type}

def get? : Entries α → Key → Option α
  | [], _ => none
  | (k, v) :: rest, key => if k.same key then some v else get? rest key

def insert : Entries α → Key → α → Entries α
  | [], key, value => [(key, value)]
  | (k, v) :: rest, key, value =>
    if k.same key then (k, value) :: rest else (k, v) :: insert rest key value

def ofList (items : List (Key × α)) : Entries α :=
  items.foldl (fun entries item => insert entries item.1 item.2) []

def field? (entries : Entries α) (name : String) : Option α := entries.get? (.str name)

/-- Whether no key is the same as a later one. -/
def distinct : List Key → Bool
  | [] => true
  | key :: rest => rest.all (fun other => !key.same other) && distinct rest

/-- How often each key occurs, in the order of first occurrence. -/
def count (keys : List Key) : Entries Nat :=
  keys.foldl (fun counts key => insert counts key ((get? counts key).getD 0 + 1)) []

def mapValues (f : α → β) (entries : Entries α) : Entries β := entries.map fun e => (e.1, f e.2)

theorem get_insert {entries : Entries α} {key : Key} (h : key.same key = true) (value : α) :
    (entries.insert key value).get? key = some value := by
  induction entries with
  | nil => simp [insert, get?, h]
  | cons entry rest ih =>
    obtain ⟨k, v⟩ := entry
    by_cases hk : k.same key = true <;> simp [insert, get?, hk, ih]

theorem insert_of_absent {entries : Entries α} {key : Key}
    (h : ∀ e ∈ entries, e.1.same key = false) (value : α) :
    entries.insert key value = entries ++ [(key, value)] := by
  induction entries with
  | nil => rfl
  | cons entry rest ih =>
    obtain ⟨k, v⟩ := entry
    have hk : k.same key = false := h (k, v) List.mem_cons_self
    have hr := ih fun e he => h e (List.mem_cons_of_mem _ he)
    simp [insert, hk, hr]

theorem distinct_iff (keys : List Key) :
    distinct keys = true ↔ keys.Pairwise fun a b => a.same b = false := by
  induction keys with
  | nil => simp [distinct]
  | cons key rest ih => simp [distinct, ih]

theorem foldl_insert_of_distinct (entries items : Entries α)
    (h : ((entries ++ items).map (·.1)).Pairwise fun a b => a.same b = false) :
    items.foldl (fun es item => insert es item.1 item.2) entries = entries ++ items := by
  induction items generalizing entries with
  | nil => simp
  | cons item rest ih =>
    have hp := h
    simp only [List.map_append, List.pairwise_append] at hp
    have ha : ∀ e ∈ entries, e.1.same item.1 = false := by
      intro e he
      exact hp.2.2 e.1 (List.mem_map_of_mem he) item.1 (by simp)
    rw [List.foldl_cons, insert_of_absent ha]
    have hr := ih (entries ++ [item]) (by simpa using h)
    simpa using hr

theorem ofList_of_distinct (items : Entries α) (h : distinct (items.map (·.1)) = true) :
    ofList items = items := by
  have hp := (distinct_iff _).mp h
  simpa [ofList] using foldl_insert_of_distinct [] items (by simpa using hp)

theorem length_insert_le (entries : Entries α) (key : Key) (value : α) :
    (entries.insert key value).length ≤ entries.length + 1 := by
  induction entries with
  | nil => simp [insert]
  | cons entry rest ih =>
    unfold insert
    split
    · simp
    · simpa using ih

end Entries

end ServiceModel
