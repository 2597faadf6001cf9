import Mathlib.Data.List.Sigma
import ServiceModel.Proofs.Shape.Forms

/-!
# When complaints are told apart

Issues of one kind are told apart by their paths, token by token as keys are. In a decoded value no
two complaints of a check clash in this way, unless a mapping that is looked into has an entry under
the null key. Then the path of a node under the null key can be that of another; but even so, only
complaints with the very same path clash.
-/
namespace ServiceModel

namespace Key

mutual

theorem equal_toValue : ∀ k l : Key, Value.equal k.toValue l.toValue = k.same l
  | .scalar _, .scalar _ => rfl
  | .scalar _, .tuple _ => rfl
  | .tuple _, .scalar _ => rfl
  | .tuple ks, .tuple ls => by simp [toValue, Value.equal, same, equalAll_toValues ks ls]

theorem equalAll_toValues : ∀ ks ls : List Key,
    Value.equalAll (toValues ks) (toValues ls) = sameAll ks ls
  | [], [] => rfl
  | [], _ :: _ => rfl
  | _ :: _, [] => rfl
  | k :: ks, l :: ls => by
    simp [toValues, Value.equalAll, sameAll, equal_toValue k l, equalAll_toValues ks ls]

end

end Key

namespace Path

/-- The paths are equal token by token, in this order or the other. -/
def Meets (p q : Path) : Prop := Value.equalAll p q = true ∨ Value.equalAll q p = true

variable {p q : Path}

theorem Meets.symm (h : Meets p q) : Meets q p := Or.symm h

theorem eq_nil_of_meets_nil (h : Meets p []) : p = [] := by
  cases p with
  | nil => rfl
  | cons token rest => rcases h with h | h <;> cases h

theorem meets_cons {k l : Key} (h : Meets (k.toValue :: p) (l.toValue :: q)) :
    k.same l = true ∧ Meets p q := by
  unfold Meets Value.equalAll at h
  rw [Key.equal_toValue, Key.equal_toValue, Key.same_comm l k] at h
  rcases h with h | h
  · exact (Bool.and_eq_true_iff.mp h).imp_right .inl
  · exact (Bool.and_eq_true_iff.mp h).imp_right .inr

end Path

namespace Complaint

def path (c : Complaint) : Path := c.node ++ c.token

theorem path_under (token : Value) (c : Complaint) : (c.under token).path = token :: c.path := rfl

/-- The issues that are made of the complaints are not told apart. -/
def Clash (c d : Complaint) : Prop := c.finding.kind = d.finding.kind ∧ Path.Meets c.path d.path

theorem Clash.symm {c d : Complaint} (h : Clash c d) : Clash d c := ⟨h.1.symm, h.2.symm⟩

theorem clash_of_alike {c d : Complaint} (h : c.issue.alike d.issue = true) : Clash c d := by
  obtain ⟨hk, hp⟩ := Bool.and_eq_true_iff.mp h
  exact ⟨eq_of_beq hk, .inl hp⟩

/-- The complaints clash in this case only, and have the same path then. -/
def ClashOnlyIf (P : Prop) (c d : Complaint) : Prop := Clash c d → P ∧ c.path = d.path

theorem ClashOnlyIf.symm {P : Prop} {c d : Complaint} (h : ClashOnlyIf P c d) :
    ClashOnlyIf P d c := fun hc => (h hc.symm).imp_right Eq.symm

end Complaint

namespace Form
open Complaint

theorem path_of_mem_ofType {type : DataType} {value : Value} {c : Complaint}
    (h : c ∈ Check.ofType type value) : c.path = [] ∧ c.finding.kind = .invalidValueType := by
  unfold Check.ofType at h
  split at h
  · cases h
  · obtain rfl := List.mem_singleton.mp h
    exact ⟨rfl, rfl⟩

/-- A flat form complains about the value itself or about a field of it, and the name of the field
is a text unless the field is not expected. -/
theorem flat_path [Visiting] {form : Form} (hf : form.isFlat = true) {value : Value} {c : Complaint}
    (hc : c ∈ form.check value) : (c.path = [] ∧ c.finding.kind = .invalidValueType) ∨
      ∃ key : Key, c.path = [key.toValue] ∧ (c.finding.kind = .unexpectedField ∨ key.IsText) := by
  cases form with
  | data type => exact .inl (path_of_mem_ofType hc)
  | tag expected => cases hf
  | listOf item => cases hf
  | mapOf form => cases hf
  | record fields required =>
    by_cases h : ∃ es, value = .map es
    · obtain ⟨es, rfl⟩ := h
      refine .inr ?_
      rcases List.mem_append.mp hc with hc | hunexpected
      · rcases List.mem_append.mp hc with hfield | hmissing
        · obtain ⟨_, hmem, hc⟩ := List.mem_flatMap.mp hfield
          rw [checks_eq_map] at hmem
          obtain ⟨⟨name, field⟩, hlisted, rfl⟩ := List.mem_map.mp hmem
          obtain ⟨v, -, d, hd, rfl⟩ := Check.mem_field_iff.mp hc
          have data := List.all_eq_true.mp hf _ hlisted
          cases field with
          | data type =>
            exact ⟨.str name, congrArg (Value.str name :: ·) (path_of_mem_ofType hd).1,
              .inr ⟨name, rfl⟩⟩
          | _ => cases data
        · obtain ⟨name, -, rfl⟩ := List.mem_map.mp hmissing
          exact ⟨.str name, rfl, .inr ⟨name, rfl⟩⟩
      · obtain ⟨e, -, rfl⟩ := List.mem_map.mp hunexpected
        exact ⟨e.1, rfl, .inl rfl⟩
    · have plain : (Form.record fields required).check value = Check.ofType .object value :=
        Check.record_of_noObject fun es he => h ⟨es, he⟩
      exact .inl (path_of_mem_ofType (plain ▸ hc))

section
variable {fields : List (String × Form)} {required : List String} {es : Entries Value} {P : Prop}

theorem apart_fields [Visiting] (hn : (fields.map (·.1)).Nodup)
    (h : ∀ f ∈ fields, ∀ v, es.field? f.1 = some v → (f.2.check v).Pairwise (ClashOnlyIf P)) :
    ((checks fields).flatMap fun f => Check.field es f.1 f.2).Pairwise (ClashOnlyIf P) := by
  rw [checks_eq_map, List.flatMap_map, List.pairwise_flatMap]
  refine ⟨fun f hf => ?_, (List.pairwise_map.mp hn).imp fun {f g} hfg c hc d hd hclash => ?_⟩
  · unfold Check.field
    cases hv : es.field? f.1 with
    | none => exact .nil
    | some v =>
      refine List.pairwise_map.mpr ((h f hf v hv).imp fun {c d} hcd hclash => ?_)
      have below := Path.meets_cons (k := .str f.1) (l := .str f.1) hclash.2
      exact (hcd ⟨hclash.1, below.2⟩).imp_right fun hp => congrArg (Value.str f.1 :: ·) hp
  · obtain ⟨_, -, c, -, rfl⟩ := Check.mem_field_iff.mp hc
    obtain ⟨_, -, d, -, rfl⟩ := Check.mem_field_iff.mp hd
    have same := (Path.meets_cons (k := .str f.1) (l := .str g.1) hclash.2).1
    exact absurd (by simpa using Key.same_str_iff.mp same) hfg

theorem apart_missing (hn : required.Nodup) :
    (Check.missing required es).Pairwise (ClashOnlyIf P) := by
  refine List.pairwise_map.mpr ((hn.filter _).imp fun {a b} hab hclash => absurd ?_ hab)
  have same := (Path.meets_cons (k := .str a) (l := .str b) hclash.2).1
  simpa using Key.same_str_iff.mp same

theorem apart_unexpected (known : List String) (hd : Entries.distinct (es.map (·.1)) = true) :
    (Check.unexpected known es).Pairwise (ClashOnlyIf P) := by
  refine List.pairwise_map.mpr (((Entries.pairwise_of_perm hd (.refl es)).filter _).imp ?_)
  intro e f hef hclash
  have same := (Path.meets_cons hclash.2).1
  rw [hef] at same
  cases same

theorem apart_record [Visiting] (hn : (fields.map (·.1)).Nodup) (hr : required.Nodup)
    (hd : Entries.distinct (es.map (·.1)) = true)
    (h : ∀ f ∈ fields, ∀ v, es.field? f.1 = some v → (f.2.check v).Pairwise (ClashOnlyIf P)) :
    ((Form.record fields required).check (.map es)).Pairwise (ClashOnlyIf P) := by
  refine List.pairwise_append.mpr ⟨List.pairwise_append.mpr ⟨apart_fields hn h, apart_missing hr,
    fun c hc d hd' hclash => ?_⟩, apart_unexpected _ hd, fun c hc d hd' hclash => ?_⟩
  · obtain ⟨f, -, hc⟩ := List.mem_flatMap.mp hc
    obtain ⟨v, hv, c, -, rfl⟩ := Check.mem_field_iff.mp hc
    obtain ⟨name, hname, rfl⟩ := List.mem_map.mp hd'
    have same := (Path.meets_cons (k := .str f.1) (l := .str name) hclash.2).1
    obtain rfl : f.1 = name := by simpa using Key.same_str_iff.mp same
    have absent := (List.mem_filter.mp hname).2
    rw [hv] at absent
    cases absent
  · obtain ⟨e, he, rfl⟩ := List.mem_map.mp hd'
    have unknown := (List.mem_filter.mp he).2
    rcases List.mem_append.mp hc with hfield | hmissing
    · obtain ⟨f, hf, hc⟩ := List.mem_flatMap.mp hfield
      obtain ⟨v, hv, c, -, rfl⟩ := Check.mem_field_iff.mp hc
      have same := (Path.meets_cons (k := .str f.1) hclash.2).1
      rw [Key.same_comm] at same
      have known : ((checks fields).map (·.1)).any (fun name => e.1.same (.str name)) = true :=
        List.any_eq_true.mpr ⟨f.1, List.mem_map_of_mem hf, same⟩
      rw [known] at unknown
      cases unknown
    · obtain ⟨name, -, rfl⟩ := List.mem_map.mp hmissing
      cases hclash.1

end

section
variable [Visiting]

theorem apart_list {item : Form} {items : List Value} {P : Prop}
    (h : ∀ v ∈ items, (item.check v).Pairwise (ClashOnlyIf P)) :
    ((Form.listOf item).check (.list items)).Pairwise (ClashOnlyIf P) := by
  change (items.zipIdx.flatMap fun q =>
    (item.check q.1).map (Complaint.under (.int q.2))).Pairwise _
  refine List.pairwise_flatMap.mpr ⟨fun q hq => ?_, ?_⟩
  · refine List.pairwise_map.mpr ((h q.1 (List.fst_mem_of_mem_zipIdx hq)).imp ?_)
    intro c d hcd hclash
    have below := Path.meets_cons (k := .int q.2) (l := .int q.2) hclash.2
    exact (hcd ⟨hclash.1, below.2⟩).imp_right fun hp => congrArg (Value.int q.2 :: ·) hp
  · refine (List.pairwise_map.mp (List.nodup_zipIdx_map_snd items)).imp ?_
    intro q r hqr c hc d hd hclash
    obtain ⟨c, -, rfl⟩ := List.mem_map.mp hc
    obtain ⟨d, -, rfl⟩ := List.mem_map.mp hd
    have same := (Path.meets_cons (k := .int q.2) (l := .int r.2) hclash.2).1
    exact absurd (Int.ofNat_inj.mp (by simpa [Key.same, Scalar.same, Scalar.integral?] using same))
      hqr

/-- What is reported under the null key as if it were not there can clash with what is reported
under another key only if both are about the type of something, and then the paths are one. -/
theorem path_eq_of_null {form : Form} (hf : form.isFlat = true) {v w : Value} {key : Key}
    {c d : Complaint} (hc : c ∈ form.check v) (hd : d ∈ form.check w)
    (h : Clash c (d.under key.toValue)) : c.path = (d.under key.toValue).path := by
  obtain ⟨hkind, hpath⟩ := h
  rw [path_under] at hpath ⊢
  rcases flat_path hf hc with ⟨hnil, -⟩ | ⟨token, htoken, hname⟩
  · rw [hnil] at hpath
    cases Path.eq_nil_of_meets_nil hpath.symm
  rw [htoken] at hpath ⊢
  obtain ⟨same, hrest⟩ := Path.meets_cons hpath
  have below : d.path = [] := Path.eq_nil_of_meets_nil hrest.symm
  rcases flat_path hf hd with ⟨-, htype⟩ | ⟨other, hother, -⟩
  · have hkind : c.finding.kind = .invalidValueType := hkind.trans htype
    rw [hkind] at hname
    obtain ⟨name, rfl⟩ := hname.resolve_left (by simp)
    rw [Key.str_same_iff.mp same, below]
  · rw [below] at hother
    cases hother

theorem apart_mapping {form : Form} (hf : form.isFlat = true) {es : Entries Value} {P : Prop}
    (hd : Entries.distinct (es.map (·.1)) = true) (null : ∀ e ∈ es, e.1 = .scalar .null → P)
    (h : ∀ e ∈ es, (form.check e.2).Pairwise (ClashOnlyIf P)) :
    ((Form.mapOf form).check (.map es)).Pairwise (ClashOnlyIf P) := by
  change ((Visiting.order es).flatMap fun e =>
    (form.check e.2).map (Complaint.underKey e.1)).Pairwise _
  refine List.pairwise_flatMap.mpr ⟨fun e he => ?_, ?_⟩
  · have he := Visiting.mem_order_iff.mp he
    refine List.pairwise_map.mpr ((h e he).imp fun {c d} hcd hclash => ?_)
    unfold underKey at hclash ⊢
    by_cases hen : e.1 = .scalar .null
    · rw [if_pos hen, if_pos hen] at hclash ⊢
      exact hcd hclash
    · rw [if_neg hen, if_neg hen] at hclash ⊢
      have below := Path.meets_cons hclash.2
      exact (hcd ⟨hclash.1, below.2⟩).imp_right fun hp => congrArg (e.1.toValue :: ·) hp
  · refine (Entries.pairwise_of_perm hd (Visiting.perm es)).imp_of_mem ?_
    intro e f he hf' hef c hc d hd' hclash
    obtain ⟨c, hbelow, rfl⟩ := List.mem_map.mp hc
    obtain ⟨d, hbelow', rfl⟩ := List.mem_map.mp hd'
    unfold underKey at hclash ⊢
    by_cases hen : e.1 = .scalar .null
    · by_cases hfn : f.1 = .scalar .null
      · rw [hen, hfn] at hef
        cases hef
      · rw [if_pos hen, if_neg hfn] at hclash ⊢
        exact ⟨null e (Visiting.mem_order_iff.mp he) hen, path_eq_of_null hf hbelow hbelow' hclash⟩
    · by_cases hfn : f.1 = .scalar .null
      · rw [if_neg hen, if_pos hfn] at hclash ⊢
        exact ⟨null f (Visiting.mem_order_iff.mp hf') hfn,
          (path_eq_of_null hf hbelow' hbelow hclash.symm).symm⟩
      · rw [if_neg hen, if_neg hfn] at hclash
        have same := (Path.meets_cons hclash.2).1
        rw [hef] at same
        cases same

theorem apart_unlooked {form : Form} {value : Value} {P : Prop} (type : DataType)
    (hc : form.check value = Check.ofType type value) :
    (form.check value).Pairwise (ClashOnlyIf P) := by
  rw [hc, Check.ofType]
  split
  · exact .nil
  · exact List.pairwise_singleton _ _

/-- In a decoded value complaints clash only because of null keys. -/
theorem apart (form : Form) {value : Value} (hr : form.isRegular = true)
    (hw : value.isWellFormed = true) :
    (form.check value).Pairwise (ClashOnlyIf (form.NullKeyed value)) := by
  induction form using Form.induction generalizing value with
  | data type => exact apart_unlooked type rfl
  | tag expected =>
    unfold check Check.tag
    split
    · exact .nil
    · exact List.pairwise_singleton _ _
  | record fields required ih =>
    obtain ⟨hfields, hrequired, hall⟩ := isRegular_record_iff.mp hr
    cases value with
    | map es =>
      obtain ⟨hd, he⟩ := (Value.everyNode_map_iff es).mp hw
      refine apart_record hfields hrequired hd fun f hf v hv => ?_
      have below := ih f hf (hall f hf) (he _ (Entries.mem_of_field? hv))
      exact below.imp fun hcd hclash => (hcd hclash).imp_left (.inField hf hv)
    | _ => exact apart_unlooked .object rfl
  | listOf item ih =>
    cases value with
    | list items =>
      have hi := ((Value.everyNode_list_iff items).mp hw).2
      exact apart_list fun v hv => (ih hr (hi v hv)).imp fun hcd hclash =>
        (hcd hclash).imp_left (.inItem hv)
    | _ => exact apart_unlooked .array rfl
  | mapOf form ih =>
    obtain ⟨hform, hflat⟩ := Bool.and_eq_true_iff.mp hr
    cases value with
    | map es =>
      obtain ⟨hd, hes⟩ := (Value.everyNode_map_iff es).mp hw
      exact apart_mapping hflat hd (fun e he => .here he) fun e he =>
        (ih hform (hes e he)).imp fun hcd hclash => (hcd hclash).imp_left (.inEntry he)
    | _ => exact apart_unlooked .object rfl

end

end Form

end ServiceModel
