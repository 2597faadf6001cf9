import Mathlib.Data.List.Perm.Basic
import Mathlib.Data.List.Sigma
import ServiceModel.Proofs.Shape.Forms

/-!
# The complaints of a check are the violations of its form

A check complains about every violation of its form once and about nothing else. Two complaints that
issues are not told apart by arise only under a null key, which is left out of the path of a node.
-/
namespace ServiceModel

namespace Complaint

/-- The complaint is about this violation. -/
structure Reports (c : Complaint) (x : Violation) : Prop where
  object : c.node = x.object
  token : c.token = x.token
  kind : c.finding.kind = x.kind

/-- The complaints are about the violations of this sort, each of them once. -/
def Enumerate (P : Violation → Prop) (cs : List Complaint) : Prop :=
  ∃ xs, List.Forall₂ Reports cs xs ∧ xs.Nodup ∧ ∀ x, x ∈ xs ↔ P x

section
variable {α : Type} {P Q : Violation → Prop} {cs ds : List Complaint}

theorem Enumerate.congr (h : Enumerate P cs) (same : ∀ x, P x ↔ Q x) : Enumerate Q cs := by
  obtain ⟨xs, hxs, hn, hP⟩ := h
  exact ⟨xs, hxs, hn, fun x => (hP x).trans (same x)⟩

theorem enumerate_nil (h : ∀ x, ¬ P x) : Enumerate P [] :=
  ⟨[], .nil, .nil, fun x => iff_of_false List.not_mem_nil (h x)⟩

theorem Enumerate.append (h : Enumerate P cs) (h' : Enumerate Q ds) (apart : ∀ x, P x → ¬ Q x) :
    Enumerate (fun x => P x ∨ Q x) (cs ++ ds) := by
  obtain ⟨xs, hxs, hn, hP⟩ := h
  obtain ⟨ys, hys, hm, hQ⟩ := h'
  refine ⟨xs ++ ys, List.rel_append hxs hys, ?_, fun x => by rw [List.mem_append, hP, hQ]⟩
  refine List.nodup_append.mpr ⟨hn, hm, fun x hx y hy hxy => ?_⟩
  exact apart x ((hP x).mp hx) (hxy ▸ (hQ y).mp hy)

theorem Enumerate.flatMap {as : List α} {f : α → List Complaint} {P : α → Violation → Prop}
    (h : ∀ a ∈ as, Enumerate (P a) (f a)) (apart : as.Pairwise fun a b => ∀ x, P a x → ¬ P b x) :
    Enumerate (fun x => ∃ a ∈ as, P a x) (as.flatMap f) := by
  induction as with
  | nil => exact enumerate_nil (by simp)
  | cons a rest ih =>
    obtain ⟨ha, hr⟩ := List.forall_mem_cons.mp h
    obtain ⟨pa, pr⟩ := List.pairwise_cons.mp apart
    rw [List.flatMap_cons]
    refine (ha.append (ih hr pr) ?_).congr fun x => by simp
    rintro x hx ⟨b, hb, hbx⟩
    exact pa b hb x hx hbx

theorem enumerate_map {as : List α} {f : α → Complaint} {g : α → Violation}
    (h : ∀ a, Reports (f a) (g a)) (apart : (as.map g).Nodup) :
    Enumerate (fun x => ∃ a ∈ as, g a = x) (as.map f) := by
  refine ⟨as.map g, ?_, apart, fun x => List.mem_map⟩
  rw [List.forall₂_map_left_iff, List.forall₂_map_right_iff]
  exact List.forall₂_same.mpr fun a _ => h a

theorem Enumerate.under (h : Enumerate P cs) (position : Nat) (token : Value) :
    Enumerate (fun x => ∃ y, P y ∧ y.under position token = x) (cs.map (.under token)) := by
  obtain ⟨xs, hxs, hn, hP⟩ := h
  refine ⟨xs.map (.under position token), ?_, ?_, fun x => ?_⟩
  · rw [List.forall₂_map_left_iff, List.forall₂_map_right_iff]
    exact hxs.imp fun c x h => ⟨congrArg _ h.object, h.token, h.kind⟩
  · refine hn.map fun x y hxy => ?_
    obtain ⟨_, _, _, _⟩ := x
    obtain ⟨_, _, _, _⟩ := y
    simpa [Violation.under] using hxy
  · simp only [List.mem_map, hP]

end

end Complaint

namespace Form
open Complaint

section
variable {fields : List (String × Form)} {required : List String} {es : Entries Value}

theorem enumerate_fields [Visiting] (hn : (fields.map (·.1)).Nodup)
    (h : ∀ f ∈ fields, ∀ v, es.field? f.1 = some v → Enumerate (Violates f.2 v) (f.2.check v)) :
    Enumerate (fun x => ∃ f ∈ fields, ∃ v, es.field? f.1 = some v ∧
        ∃ y, Violates f.2 v y ∧ y.under 0 (.str f.1) = x)
      ((checks fields).flatMap fun f => Check.field es f.1 f.2) := by
  rw [checks_eq_map, List.flatMap_map]
  refine Enumerate.flatMap (fun f hf => ?_) ?_
  · unfold Check.field
    cases hv : es.field? f.1 with
    | none => exact enumerate_nil (by simp)
    | some v => exact ((h f hf v hv).under 0 (.str f.1)).congr fun x => by simp
  · refine (List.pairwise_map.mp hn).imp fun {f g} hfg x => ?_
    rintro ⟨-, -, y, -, rfl⟩ ⟨-, -, z, -, hz⟩
    have names : Value.str g.1 = Value.str f.1 := (List.cons.inj (congrArg (·.object) hz)).1
    simp at names
    exact hfg names.symm

theorem enumerate_missing (hn : required.Nodup) :
    Enumerate (fun x => ∃ name ∈ required, es.field? name = none ∧
        ⟨[], [], [.str name], .missingRequiredField⟩ = x) (Check.missing required es) := by
  refine (enumerate_map (g := fun name => ⟨[], [], [.str name], .missingRequiredField⟩)
    (fun name => ⟨rfl, rfl, rfl⟩) ?_).congr fun x => ?_
  · refine (hn.filter _).map fun a b hab => ?_
    simpa using hab
  · simp [List.mem_filter, and_assoc]

theorem enumerate_unexpected : Enumerate (fun x => ∃ n e, es[n]? = some e ∧
        (∀ f ∈ fields, e.1 ≠ .str f.1) ∧ ⟨[n], [], [e.1.toValue], .unexpectedField⟩ = x)
      (Check.unexpected (fields.map (·.1)) es) := by
  have listed := List.zipIdx_map_fst 0 es
  unfold Check.unexpected
  nth_rewrite 2 [← listed]
  rw [List.filter_map, List.map_map]
  refine (enumerate_map
    (g := fun q : (Key × Value) × Nat => ⟨[q.2], [], [q.1.1.toValue], .unexpectedField⟩)
    (fun q => ⟨rfl, rfl, rfl⟩) ?_).congr fun x => ?_
  · refine (List.pairwise_map.mpr ?_)
    refine List.Pairwise.imp ?_ ((List.pairwise_map.mp (List.nodup_zipIdx_map_snd es)).filter _)
    intro q r hqr h
    simp at h
    exact hqr h.1
  · simp only [List.mem_filter, Prod.exists, List.mk_mem_zipIdx_iff_getElem?, Function.comp,
      List.any_map, Bool.not_eq_true', List.any_eq_false, Key.same_str_iff]
    constructor
    · rintro ⟨k, v, n, ⟨hn, hk⟩, h⟩
      exact ⟨n, k, v, hn, hk, h⟩
    · rintro ⟨n, k, v, hn, hk, h⟩
      exact ⟨k, v, n, ⟨hn, hk⟩, h⟩

theorem enumerate_record [Visiting] (hn : (fields.map (·.1)).Nodup) (hr : required.Nodup)
    (h : ∀ f ∈ fields, ∀ v, es.field? f.1 = some v → Enumerate (Violates f.2 v) (f.2.check v)) :
    Enumerate (Violates (.record fields required) (.map es))
      ((Form.record fields required).check (.map es)) := by
  have names : (checks fields).map (·.1) = fields.map (·.1) := by
    rw [checks_eq_map, List.map_map]
    rfl
  change Enumerate _ ((checks fields).flatMap (fun f => Check.field es f.1 f.2) ++
    Check.missing required es ++ Check.unexpected ((checks fields).map (·.1)) es)
  rw [names]
  refine (((enumerate_fields hn h).append (enumerate_missing hr) ?_).append enumerate_unexpected
    ?_).congr fun x => ?_
  · rintro x ⟨f, -, v, -, y, -, rfl⟩ ⟨name, -, -, hx⟩
    exact absurd (congrArg (·.object) hx) (by simp [Violation.under])
  · rintro x (⟨f, -, v, -, y, -, rfl⟩ | ⟨name, -, -, rfl⟩) ⟨n, e, -, -, hx⟩
    · exact absurd (congrArg (·.object) hx) (by simp [Violation.under])
    · exact absurd (congrArg (·.kind) hx) (by simp)
  · constructor
    · rintro ((⟨f, hf, v, hv, y, hy, rfl⟩ | ⟨name, hname, ha, rfl⟩) | ⟨n, e, he, hk, rfl⟩)
      · exact .inField hf hv hy
      · exact .missing hname ha
      · exact .unexpected he hk
    · intro hx
      cases hx with
      | noObject h => exact absurd rfl (h es)
      | missing hname ha => exact .inl (.inr ⟨_, hname, ha, rfl⟩)
      | unexpected he hk => exact .inr ⟨_, _, he, hk, rfl⟩
      | inField hf hv hy => exact .inl (.inl ⟨_, hf, _, hv, _, hy, rfl⟩)

end

theorem enumerate_list [Visiting] {item : Form} {items : List Value}
    (h : ∀ v ∈ items, Enumerate (Violates item v) (item.check v)) :
    Enumerate (Violates (.listOf item) (.list items)) ((Form.listOf item).check (.list items)) := by
  change Enumerate _ (items.zipIdx.flatMap fun q => (item.check q.1).map (.under (.int q.2)))
  refine (Enumerate.flatMap (P := fun q x => ∃ y, Violates item q.1 y ∧
    y.under q.2 (.int q.2) = x) (fun q hq => ?_) ?_).congr fun x => ?_
  · exact (h q.1 (List.fst_mem_of_mem_zipIdx hq)).under q.2 (.int q.2)
  · refine (List.pairwise_map.mp (List.nodup_zipIdx_map_snd items)).imp fun {q r} hqr x => ?_
    rintro ⟨y, -, rfl⟩ ⟨z, -, hz⟩
    exact hqr (List.cons.inj (congrArg (·.positions) hz)).1.symm
  · constructor
    · rintro ⟨q, hq, y, hy, rfl⟩
      exact .inItem (List.mk_mem_zipIdx_iff_getElem?.mp hq) hy
    · intro hx
      cases hx with
      | noList h => exact absurd rfl (h items)
      | inItem hn hy => exact ⟨(_, _), List.mk_mem_zipIdx_iff_getElem?.mpr hn, _, hy, rfl⟩

/-- The entries in another order, with the positions they had. -/
theorem exists_positions {es visited : Entries Value} (h : visited.Perm es) :
    ∃ qs : List ((Key × Value) × Nat), visited = qs.map (·.1) ∧ qs.Perm es.zipIdx := by
  have placed : List.Forall₂ (fun e (q : (Key × Value) × Nat) => e = q.1) es es.zipIdx := by
    have same := List.forall₂_map_left_iff (f := Prod.fst)
      (R := fun e (q : (Key × Value) × Nat) => e = q.1) (l := es.zipIdx) (u := es.zipIdx)
    rw [List.zipIdx_map_fst] at same
    exact same.mpr (List.forall₂_same.mpr fun _ _ => rfl)
  obtain ⟨qs, hq, hperm⟩ := List.perm_comp_forall₂ h placed
  exact ⟨qs, hq.eq_map, hperm⟩

section
variable [Visiting]

theorem enumerate_mapping {form : Form} {es : Entries Value}
    (hn : ∀ e ∈ es, e.1 ≠ .scalar .null)
    (h : ∀ e ∈ es, Enumerate (Violates form e.2) (form.check e.2)) :
    Enumerate (Violates (.mapOf form) (.map es)) ((Form.mapOf form).check (.map es)) := by
  change Enumerate _ ((Visiting.order es).flatMap fun e => (form.check e.2).map (.underKey e.1))
  obtain ⟨qs, hqs, hperm⟩ := exists_positions (Visiting.perm es)
  have mem : ∀ {q}, q ∈ qs ↔ es[q.2]? = some q.1 :=
    hperm.mem_iff.trans List.mk_mem_zipIdx_iff_getElem?
  have named : ∀ q ∈ qs, Complaint.underKey q.1.1 = .under q.1.1.toValue := by
    intro q hq
    funext c
    exact if_neg (hn q.1 (List.mem_of_getElem? (mem.mp hq)))
  rw [hqs, List.flatMap_map]
  refine (Enumerate.flatMap (P := fun q x => ∃ y, Violates form q.1.2 y ∧
    y.under q.2 q.1.1.toValue = x) (fun q hq => ?_) ?_).congr fun x => ?_
  · rw [named q hq]
    exact (h q.1 (List.mem_of_getElem? (mem.mp hq))).under q.2 q.1.1.toValue
  · have positions := ((hperm.map (·.2)).nodup_iff.mpr (List.nodup_zipIdx_map_snd es))
    refine (List.pairwise_map.mp positions).imp fun {q r} hqr x => ?_
    rintro ⟨y, -, rfl⟩ ⟨z, -, hz⟩
    exact hqr (List.cons.inj (congrArg (·.positions) hz)).1.symm
  · constructor
    · rintro ⟨q, hq, y, hy, rfl⟩
      exact .inEntry (mem.mp hq) hy
    · intro hx
      cases hx with
      | noMap h => exact absurd rfl (h es)
      | inEntry hn hy => exact ⟨(_, _), mem.mpr hn, _, hy, rfl⟩

/-- A value of the wrong type has no other violation. -/
theorem enumerate_unlooked {form : Form} {value : Value} (type : DataType)
    (hc : form.check value = Check.ofType type value) (ht : JsonSchema.hasType type value = false)
    (wrong : form.Violates value ⟨[], [], [], .invalidValueType⟩)
    (only : ∀ x, form.Violates value x → x = ⟨[], [], [], .invalidValueType⟩) :
    Enumerate (form.Violates value) (form.check value) := by
  rw [hc, Check.ofType, ht, if_neg Bool.false_ne_true]
  exact ⟨[⟨[], [], [], .invalidValueType⟩], .cons ⟨rfl, rfl, rfl⟩ .nil, List.nodup_singleton _,
    fun x => List.mem_singleton.trans ⟨fun hx => hx ▸ wrong, only x⟩⟩

/-- Without null keys in the way, the complaints are about the violations of the form. -/
theorem enumerates (form : Form) {value : Value} (hr : form.isRegular = true)
    (hn : ¬ form.NullKeyed value) : Enumerate (form.Violates value) (form.check value) := by
  induction form using Form.induction generalizing value with
  | data type =>
    cases h : JsonSchema.hasType type value with
    | true =>
      rw [check, (Check.ofType_eq_nil_iff type value).mpr h]
      refine enumerate_nil fun x hx => ?_
      cases hx with
      | wrongType h' => rw [h] at h'; cases h'
    | false =>
      refine enumerate_unlooked type rfl h (.wrongType h) fun x hx => ?_
      cases hx
      rfl
  | tag expected =>
    by_cases h : value = .str expected
    · rw [check, Check.tag_eq_nil_iff.mpr h]
      refine enumerate_nil fun x hx => ?_
      cases hx with
      | wrongTag h' => exact h' h
    · have complains : Check.tag expected value = [.about (.wrongTag value expected)] :=
        if_neg fun htag => h (Check.str?_eq_some_iff.mp (by simpa using htag))
      rw [check, complains]
      refine ⟨[⟨[], [], [], .invalidValueType⟩], .cons ⟨rfl, rfl, rfl⟩ .nil,
        List.nodup_singleton _, fun x => List.mem_singleton.trans ⟨fun hx => hx ▸ .wrongTag h, ?_⟩⟩
      rintro (_ | _)
      rfl
  | record fields required ih =>
    obtain ⟨hfields, hrequired, hall⟩ := isRegular_record_iff.mp hr
    cases value with
    | map es =>
      exact enumerate_record hfields hrequired fun f hf v hv =>
        ih f hf (hall f hf) fun hnull => hn (.inField hf hv hnull)
    | _ =>
      refine enumerate_unlooked .object rfl (by simp [JsonSchema.hasType]) (.noObject (by simp))
        fun x hx => ?_
      cases hx
      rfl
  | listOf item ih =>
    cases value with
    | list items =>
      exact enumerate_list fun v hv => ih hr fun hnull => hn (.inItem hv hnull)
    | _ =>
      refine enumerate_unlooked .array rfl (by simp [JsonSchema.hasType]) (.noList (by simp))
        fun x hx => ?_
      cases hx
      rfl
  | mapOf form ih =>
    have hform : form.isRegular = true := (Bool.and_eq_true_iff.mp hr).1
    cases value with
    | map es =>
      exact enumerate_mapping (fun e he hnull => hn (.here he hnull)) fun e he =>
        ih hform fun hnull => hn (.inEntry he hnull)
    | _ =>
      refine enumerate_unlooked .object rfl (by simp [JsonSchema.hasType]) (.noMap (by simp))
        fun x hx => ?_
      cases hx
      rfl

end

end Form

end ServiceModel
