import Mathlib.Data.List.Induction
import ServiceModel.Proofs.Value.Entries

/-!
# Keys that occur more than once

Items are written one after another, each in view of what stands under its key so far. What comes of
it is one entry for each key that differs from all before it, in the order and under the key that
came first; its value is made of the items of that key alone, in their order. Counting keys and
making a mapping of items are two cases of this.
-/
namespace ServiceModel

theorem Scalar.same_trans {a b c : Scalar} (h : a.same b = true) (h' : b.same c = true) :
    a.same c = true := by
  unfold same at *
  cases ha : a.integral? <;> cases hb : b.integral? <;> cases hc : c.integral? <;> simp_all

namespace Key

mutual

theorem same_trans : ∀ {k l m : Key}, k.same l = true → l.same m = true → k.same m = true
  | .scalar _, .scalar _, .scalar _, h, h' => Scalar.same_trans h h'
  | .tuple _, .tuple _, .tuple _, h, h' => sameAll_trans h h'
  | .scalar _, .tuple _, _, h, _ => nomatch h
  | .tuple _, .scalar _, _, h, _ => nomatch h
  | .scalar _, .scalar _, .tuple _, _, h' => nomatch h'
  | .tuple _, .tuple _, .scalar _, _, h' => nomatch h'

theorem sameAll_trans : ∀ {ks ls ms : List Key},
    sameAll ks ls = true → sameAll ls ms = true → sameAll ks ms = true
  | [], [], [], _, _ => rfl
  | [], _ :: _, _, h, _ => nomatch h
  | _ :: _, [], _, h, _ => nomatch h
  | [], [], _ :: _, _, h' => nomatch h'
  | _ :: _, _ :: _, [], _, h' => nomatch h'
  | _ :: _, _ :: _, _ :: _, h, h' => by
    obtain ⟨hk, hks⟩ := Bool.and_eq_true_iff.mp h
    obtain ⟨hl, hls⟩ := Bool.and_eq_true_iff.mp h'
    exact Bool.and_eq_true_iff.mpr ⟨same_trans hk hl, sameAll_trans hks hls⟩

end

/-- A key that is the same as any is the same as itself. -/
theorem same_self_of_same {k l : Key} (h : k.same l = true) : k.same k = true :=
  same_trans h (same_comm l k ▸ h)

end Key

namespace Entries
variable {α β : Type}

/-- The items whose keys differ from those of all before them. -/
def firsts : List (Key × α) → Entries α
  | [] => []
  | item :: rest => item :: (firsts rest).filter fun other => !item.1.same other.1

theorem firsts_sublist (items : List (Key × α)) : (firsts items).Sublist items := by
  induction items with
  | nil => exact .slnil
  | cons item rest ih => exact (List.filter_sublist.trans ih).cons_cons item

theorem firsts_subset (items : List (Key × α)) : firsts items ⊆ items :=
  (firsts_sublist items).subset

theorem distinct_firsts (items : List (Key × α)) : distinct ((firsts items).map (·.1)) = true := by
  rw [distinct_iff, List.pairwise_map]
  induction items with
  | nil => exact .nil
  | cons item rest ih =>
    refine .cons (fun other h => ?_) (ih.filter _)
    simpa using (List.mem_filter.mp h).2

theorem firsts_concat (items : List (Key × α)) (item : Key × α) : firsts (items ++ [item]) =
    firsts items ++ if items.any (·.1.same item.1) then [] else [item] := by
  induction items with
  | nil => rfl
  | cons first rest ih =>
    rw [List.cons_append, firsts, ih, List.filter_append, firsts, List.cons_append, List.any_cons]
    cases h : first.1.same item.1 with
    | true => cases rest.any _ <;> simp [h]
    | false => cases rest.any _ <;> simp [h]

/-- Each key is the same as one that came first. -/
theorem exists_mem_firsts {items : List (Key × α)} {key : Key}
    (h : ∃ item ∈ items, item.1.same key = true) : ∃ e ∈ firsts items, e.1.same key = true := by
  induction items with
  | nil => simp at h
  | cons first rest ih =>
    by_cases hf : first.1.same key = true
    · exact ⟨first, List.mem_cons_self, hf⟩
    · obtain ⟨item, hi, hs⟩ := h
      rcases List.mem_cons.mp hi with rfl | hi
      · exact absurd hs hf
      obtain ⟨e, he, hek⟩ := ih ⟨item, hi, hs⟩
      refine ⟨e, List.mem_cons_of_mem _ (List.mem_filter.mpr ⟨he, ?_⟩), hek⟩
      rw [Bool.not_eq_true', ← Bool.not_eq_true]
      exact fun hfe => hf (Key.same_trans hfe hek)

/-! Writing in view of what is there. -/

theorem get?_of_absent {es : Entries α} {key : Key} (h : ∀ e ∈ es, e.1.same key = false) :
    es.get? key = none := by
  induction es with
  | nil => rfl
  | cons e rest ih =>
    obtain ⟨he, hr⟩ := List.forall_mem_cons.mp h
    rw [get?, he, if_neg Bool.false_ne_true]
    exact ih hr

/-- What stands under the key is replaced by what is made of it. -/
theorem insert_of_present {es : Entries β} {key : Key} (hd : distinct (es.map (·.1)) = true)
    (h : ∃ e ∈ es, e.1.same key = true) (f : Option β → β) :
    es.insert key (f (es.get? key)) =
      es.map fun e => if e.1.same key then (e.1, f (some e.2)) else e := by
  induction es with
  | nil => simp at h
  | cons e rest ih =>
    obtain ⟨k, v⟩ := e
    obtain ⟨hk, hr⟩ := (distinct_cons_iff k v rest).mp hd
    cases hs : k.same key with
    | true =>
      have others : rest.map (fun e => if e.1.same key then (e.1, f (some e.2)) else e) = rest := by
        conv_rhs => rw [← List.map_id rest]
        refine List.map_congr_left fun e he => if_neg fun hek => ?_
        have hke := Key.same_trans hs (Key.same_comm e.1 key ▸ hek)
        rw [hk e he] at hke
        cases hke
      rw [List.map_cons, others]
      simp [insert, get?, hs]
    | false =>
      obtain ⟨e, he, hek⟩ := h
      rcases List.mem_cons.mp he with rfl | he
      · rw [hs] at hek
        cases hek
      · have later := ih hr ⟨e, he, hek⟩
        simp [insert, get?, hs, later]

/-- Writes items one after another; `f` makes the value of what stands under the key so far and of
what the item holds. -/
def gather (f : Option β → α → β) (items : List (Key × α)) : Entries β :=
  items.foldl (fun es item => es.insert item.1 (f (es.get? item.1) item.2)) []

/-- The value that comes of items of one key. -/
def total (f : Option β → α → β) (items : List (Key × α)) : Option β :=
  items.foldl (fun value item => some (f value item.2)) none

theorem total_concat (f : Option β → α → β) (items : List (Key × α)) (item : Key × α) :
    total f (items ++ [item]) = some (f (total f items) item.2) :=
  List.foldl_concat _ _ _ _

theorem total_isSome (f : Option β → α → β) {items : List (Key × α)} (h : items ≠ []) :
    (total f items).isSome = true := by
  obtain ⟨front, last, rfl⟩ := (List.eq_nil_or_concat' items).resolve_left h
  rw [total_concat]
  rfl

/-- The items under a key. -/
def under (items : List (Key × α)) (key : Key) : List (Key × α) :=
  items.filter fun item => key.same item.1

theorem under_concat (items : List (Key × α)) (item : Key × α) (key : Key) :
    under (items ++ [item]) key = under items key ++ if key.same item.1 then [item] else [] := by
  rw [under, List.filter_append, List.filter_singleton]
  cases key.same item.1 <;> rfl

theorem under_ne_nil {items : List (Key × α)} {item : Key × α} (hi : item ∈ items) {key : Key}
    (h : item.1.same key = true) : under items item.1 ≠ [] :=
  List.ne_nil_of_mem (List.mem_filter.mpr ⟨hi, Key.same_self_of_same h⟩)

/-- An undefined number is the same as no key, so an item under it is gathered with no other. -/
theorem gather_eq (f : Option β → α → β) (items : List (Key × α)) : gather f items =
    (firsts items).map fun e => (e.1, (total f (under items e.1)).getD (f none e.2)) := by
  induction items using List.reverseRecOn with
  | nil => rfl
  | append_singleton items item ih =>
    have step : gather f (items ++ [item]) = (gather f items).insert item.1
        (f ((gather f items).get? item.1) item.2) := List.foldl_concat _ _ _ _
    have keys : (gather f items).map (·.1) = (firsts items).map (·.1) := by
      rw [ih, List.map_map]
      rfl
    rw [step, firsts_concat, List.map_append]
    by_cases h : ∃ other ∈ items, other.1.same item.1 = true
    · -- The entry of the first item with this key takes up the new one; the others stay.
      have hd : distinct ((gather f items).map (·.1)) = true := keys ▸ distinct_firsts items
      have present : ∃ e ∈ gather f items, e.1.same item.1 = true := by
        obtain ⟨e, he, hs⟩ := exists_mem_firsts h
        rw [ih]
        exact ⟨_, List.mem_map_of_mem he, hs⟩
      rw [insert_of_present hd present (f := fun value => f value item.2), ih, List.map_map,
        if_pos (List.any_eq_true.mpr h), List.map_nil, List.append_nil]
      refine List.map_congr_left fun e he => ?_
      rw [Function.comp_apply, under_concat]
      cases hs : e.1.same item.1 with
      | false => simp
      | true =>
        obtain ⟨value, hv⟩ := Option.isSome_iff_exists.mp
          (total_isSome f (under_ne_nil (firsts_subset items he) hs))
        simp [total_concat, hv]
    · have absent : ∀ other ∈ items, other.1.same item.1 = false := by simpa using h
      have unwritten : ∀ e ∈ gather f items, e.1.same item.1 = false := by
        rw [ih]
        exact List.forall_mem_map.mpr fun e he => absent e (firsts_subset items he)
      have alone : under items item.1 = [] := List.filter_eq_nil_iff.mpr fun other ho => by
        simp [Key.same_comm item.1, absent other ho]
      have none : items.any (·.1.same item.1) = false :=
        Bool.eq_false_iff.mpr (mt List.any_eq_true.mp h)
      rw [insert_of_absent unwritten, get?_of_absent unwritten, ih, none,
        if_neg Bool.false_ne_true, List.map_singleton]
      congr 1
      · refine List.map_congr_left fun e he => ?_
        rw [under_concat, absent e (firsts_subset items he), if_neg Bool.false_ne_true,
          List.append_nil]
      · rw [under_concat, alone]
        cases item.1.same item.1 <;> rfl

/-! Counting keys, and making a mapping of items. -/

def occurrences (items : List (Key × α)) (key : Key) : Nat := (under items key).length

/-- What the last item under a key holds. -/
def last? (items : List (Key × α)) (key : Key) : Option α := (under items key).getLast?.map (·.2)

theorem count_eq (items : List (Key × α)) : count (items.map (·.1)) =
    (firsts items).map fun e => (e.1, max 1 (occurrences items e.1)) := by
  have counted : ∀ items : List (Key × α), (total (fun n _ => n.getD 0 + 1) items).getD 1 =
      max 1 items.length := by
    intro items
    induction items using List.reverseRecOn with
    | nil => rfl
    | append_singleton items item ih =>
      rw [total_concat]
      rcases items with _ | ⟨first, rest⟩
      · rfl
      · obtain ⟨n, hn⟩ := Option.isSome_iff_exists.mp
          (total_isSome (fun (n : Option Nat) (_ : α) => n.getD 0 + 1)
            (List.cons_ne_nil first rest))
        rw [hn] at ih ⊢
        simp only [Option.getD_some, List.length_append, List.length_cons, List.length_nil] at ih ⊢
        omega
  have gathered : count (items.map (·.1)) = gather (fun n _ => n.getD 0 + 1) items :=
    List.foldl_map
  rw [gathered, gather_eq]
  exact List.map_congr_left fun e _ => congrArg (e.1, ·) (counted _)

/-- The mapping made of items has their keys in the order in which they first came, and under each
of them what came last. -/
theorem ofList_eq (items : List (Key × α)) :
    ofList items = (firsts items).map fun e => (e.1, (last? items e.1).getD e.2) := by
  have latest : ∀ items : List (Key × α), total (fun _ value => value) items =
      items.getLast?.map (·.2) := by
    intro items
    induction items using List.reverseRecOn with
    | nil => rfl
    | append_singleton items item _ => simp [total_concat]
  have gathered : ofList items = gather (fun _ value => value) items := rfl
  rw [gathered, gather_eq]
  simp only [latest]
  rfl

/-- There are as many keys as items exactly if no key is repeated. -/
theorem length_firsts_eq_iff (items : List (Key × α)) :
    (firsts items).length = items.length ↔ distinct (items.map (·.1)) = true := by
  constructor
  · intro h
    have all : firsts items = items := (firsts_sublist items).eq_of_length h
    exact all ▸ distinct_firsts items
  · intro h
    calc (firsts items).length
      _ = (ofList items).length := by rw [ofList_eq, List.length_map]
      _ = items.length := by rw [ofList_of_distinct items h]

end Entries

end ServiceModel
