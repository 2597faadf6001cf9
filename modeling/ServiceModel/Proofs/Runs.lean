import ServiceModel.Proofs.Correspondence
import ServiceModel.Traced

/-!
# Runs that end with a value

What it means, step by step, that a computation ends with a value: one equivalence for each way
of putting computations together. A traced computation yields a value if it ends with it and
leaves no trace, which for a reader of a shape says that it found no issue.
-/
namespace ServiceModel

namespace Fault
variable {α β : Type}

theorem ok_bind (a : α) (f : α → Except Fault β) : .ok a >>= f = f a := rfl

theorem error_bind (fault : Fault) (f : α → Except Fault β) :
    .error fault >>= f = .error fault := rfl

theorem bind_eq_ok_iff {m : Except Fault α} {f : α → Except Fault β} {b : β} :
    m >>= f = .ok b ↔ ∃ a, m = .ok a ∧ f a = .ok b := by
  cases m <;> simp [bind, Except.bind]

theorem isOk_iff {m : Except Fault α} : m.isOk = true ↔ ∃ a, m = .ok a := by
  cases m <;> simp [Except.isOk, Except.toBool]

theorem map_eq_ok_iff {m : Except Fault α} {f : α → β} {b : β} :
    f <$> m = .ok b ↔ ∃ a, m = .ok a ∧ b = f a := by
  cases m <;> simp [Functor.map, Except.map, eq_comm]

theorem pure_eq_ok_iff {a b : α} : (pure a : Except Fault α) = .ok b ↔ a = b := by
  simp [pure, Except.pure]

theorem mapM_eq_ok_iff {f : α → Except Fault β} {items : List α} {results : List β} :
    items.mapM f = .ok results ↔ List.Forall₂ (fun a b => f a = .ok b) items results := by
  induction items generalizing results with
  | nil => cases results <;> simp [pure_eq_ok_iff]
  | cons a rest ih =>
    rw [List.mapM_cons]
    cases results with
    | nil => simp [bind_eq_ok_iff, map_eq_ok_iff]
    | cons b more => simp [bind_eq_ok_iff, map_eq_ok_iff, ih]

end Fault

namespace Traced
variable {τ σ α β : Type}

theorem outcome_bind (m : Traced τ α) (f : α → Traced τ β) :
    (m >>= f).outcome = m.outcome >>= fun a => (f a).outcome := by
  cases h : m.outcome with
  | ok a =>
    rw [bind_of_ok h]
    rfl
  | error fault =>
    rw [bind_of_error h]
    rfl

theorem trace_bind {m : Traced τ α} {a : α} (h : m.outcome = .ok a) (f : α → Traced τ β) :
    (m >>= f).trace = m.trace ++ (f a).trace := by
  rw [bind_of_ok h]

/-- What comes after leaves no trace of its own. -/
theorem trace_bind_of_quiet {m : Traced τ α} {f : α → Traced τ β} (quiet : ∀ a, (f a).trace = []) :
    (m >>= f).trace = m.trace := by
  cases h : m.outcome with
  | ok a => rw [trace_bind h, quiet, List.append_nil]
  | error fault => rw [bind_of_error h]

theorem trace_map (m : Traced τ α) (f : α → β) : (f <$> m).trace = m.trace := by
  rw [map_eq_pure_bind]
  exact trace_bind_of_quiet fun _ => rfl

theorem outcome_bind_eq_ok_iff {m : Traced τ α} {f : α → Traced τ β} {b : β} :
    (m >>= f).outcome = .ok b ↔ ∃ a, m.outcome = .ok a ∧ (f a).outcome = .ok b := by
  cases h : m.outcome with
  | ok a => simp [bind_of_ok h]
  | error fault => simp [bind_of_error h]

theorem outcome_pure_eq_ok_iff {a b : α} : (pure a : Traced τ α).outcome = .ok b ↔ a = b := by
  change Except.ok a = Except.ok b ↔ _
  simp

theorem outcome_map_eq_ok_iff {m : Traced τ α} {f : α → β} {b : β} :
    (f <$> m).outcome = .ok b ↔ ∃ a, m.outcome = .ok a ∧ b = f a := by
  rw [map_eq_pure_bind, outcome_bind_eq_ok_iff]
  simp only [outcome_pure_eq_ok_iff, @eq_comm β b]

theorem outcome_each_eq_ok_iff {f : α → Traced τ β} {items : List α} {results : List β} :
    (each f items).outcome = .ok results ↔
      List.Forall₂ (fun a b => (f a).outcome = .ok b) items results := by
  induction items generalizing results with
  | nil => cases results <;> simp [each, outcome_pure_eq_ok_iff]
  | cons a rest ih =>
    rw [each_cons]
    cases results with
    | nil => simp [outcome_bind_eq_ok_iff, outcome_map_eq_ok_iff]
    | cons b more => simp [outcome_bind_eq_ok_iff, outcome_map_eq_ok_iff, ih]

theorem lift_ok (a : α) : (lift (.ok a) : Traced τ α) = pure a := rfl

theorem each_congr {γ : Type} {f : α → Traced τ γ} {g : β → Traced τ γ} {as : List α} {bs : List β}
    (h : List.Forall₂ (fun a b => f a = g b) as bs) : each f as = each g bs := by
  induction h with
  | nil => rfl
  | cons hab _ ih => rw [each_cons, each_cons, hab, ih]

theorem each_map {γ : Type} (g : γ → α) (f : α → Traced τ β) (items : List γ) :
    each f (items.map g) = each (fun c => f (g c)) items :=
  each_congr (List.forall₂_map_left_iff.mpr (List.forall₂_same.mpr fun _ _ => rfl))

/-- The computation does not fault. -/
def Ends (m : Traced τ α) : Prop := ∃ a, m.outcome = .ok a

theorem ends_pure (a : α) : (pure a : Traced τ α).Ends := ⟨a, rfl⟩

theorem ends_emit (items : List τ) : (emit items).Ends := ⟨(), rfl⟩

theorem ends_bind_iff {m : Traced τ α} {f : α → Traced τ β} :
    (m >>= f).Ends ↔ ∃ a, m.outcome = .ok a ∧ (f a).Ends := by
  simp only [Ends, outcome_bind_eq_ok_iff]
  exact ⟨fun ⟨b, a, hm, hf⟩ => ⟨a, hm, b, hf⟩, fun ⟨a, hm, b, hf⟩ => ⟨b, a, hm, hf⟩⟩

theorem ends_bind {m : Traced τ α} {f : α → Traced τ β} (hm : m.Ends)
    (hf : ∀ a, m.outcome = .ok a → (f a).Ends) : (m >>= f).Ends := by
  obtain ⟨a, ha⟩ := hm
  exact ends_bind_iff.mpr ⟨a, ha, hf a ha⟩

theorem ends_map_iff {m : Traced τ α} {f : α → β} : (f <$> m).Ends ↔ m.Ends := by
  rw [map_eq_pure_bind, ends_bind_iff]
  exact ⟨fun ⟨a, ha, _⟩ => ⟨a, ha⟩, fun ⟨a, ha⟩ => ⟨a, ha, ends_pure _⟩⟩

theorem ends_relabel_iff {f : τ → σ} {m : Traced τ α} : (m.relabel f).Ends ↔ m.Ends := Iff.rfl

theorem ends_each_iff {f : α → Traced τ β} {items : List α} :
    (each f items).Ends ↔ ∀ a ∈ items, (f a).Ends := by
  simp only [Ends, outcome_each_eq_ok_iff]
  exact List.Forall₂.exists_iff

theorem trace_each {f : α → Traced τ β} {items : List α} (h : ∀ a ∈ items, (f a).Ends) :
    (each f items).trace = items.flatMap fun a => (f a).trace := by
  induction items with
  | nil => rfl
  | cons a rest ih =>
    obtain ⟨⟨b, hb⟩, hrest⟩ := List.forall_mem_cons.mp h
    obtain ⟨more, hmore⟩ := ends_each_iff.mpr hrest
    rw [each_cons, bind_of_ok hb, bind_of_ok hmore, List.flatMap_cons, ← ih hrest]
    exact congrArg _ (List.append_nil _)

/-- Everything traced has the property. -/
def Traces (P : τ → Prop) (m : Traced τ α) : Prop := ∀ item ∈ m.trace, P item

section
variable {P : τ → Prop} {m : Traced τ α}

theorem Traces.of_quiet (h : m.trace = []) : m.Traces P := by
  rw [Traces, h]
  exact fun _ h => nomatch h

theorem traces_pure (a : α) : (pure a : Traced τ α).Traces P := .of_quiet rfl

theorem traces_emit_iff {items : List τ} : (emit items).Traces P ↔ ∀ item ∈ items, P item := Iff.rfl

theorem traces_lift (outcome : Except Fault α) : (lift outcome : Traced τ α).Traces P :=
  .of_quiet rfl

theorem Traces.bind (hm : m.Traces P) {f : α → Traced τ β}
    (hf : ∀ a, m.outcome = .ok a → (f a).Traces P) : (m >>= f).Traces P := by
  cases h : m.outcome with
  | ok a =>
    rw [Traces, trace_bind h]
    exact List.forall_mem_append.mpr ⟨hm, hf a h⟩
  | error fault =>
    rw [bind_of_error h]
    exact hm

theorem Traces.map (hm : m.Traces P) (f : α → β) : (f <$> m).Traces P := by
  rw [Traces, trace_map]
  exact hm

theorem traces_relabel_iff {P : σ → Prop} {f : τ → σ} :
    (m.relabel f).Traces P ↔ m.Traces fun item => P (f item) := List.forall_mem_map

theorem traces_each {f : α → Traced τ β} {items : List α} (h : ∀ a ∈ items, (f a).Traces P) :
    (each f items).Traces P := by
  induction items with
  | nil => exact traces_pure []
  | cons a rest ih =>
    obtain ⟨ha, hr⟩ := List.forall_mem_cons.mp h
    rw [each_cons]
    exact ha.bind fun _ _ => (ih hr).bind fun _ _ => traces_pure _

end

/-- The computation ends with this value, and its trace is empty. -/
def Yields (m : Traced τ α) (a : α) : Prop := m.trace = [] ∧ m.outcome = .ok a

theorem yields_pure_iff {a b : α} : (pure a : Traced τ α).Yields b ↔ a = b := by
  change [] = [] ∧ Except.ok a = Except.ok b ↔ _
  simp

theorem yields_bind_iff {m : Traced τ α} {f : α → Traced τ β} {b : β} :
    (m >>= f).Yields b ↔ ∃ a, m.Yields a ∧ (f a).Yields b := by
  cases h : m.outcome with
  | ok a => simp [Yields, bind_of_ok h, h, and_assoc]
  | error fault => simp [Yields, bind_of_error h, h]

theorem yields_map_iff {m : Traced τ α} {f : α → β} {b : β} :
    (f <$> m).Yields b ↔ ∃ a, m.Yields a ∧ b = f a := by
  rw [map_eq_pure_bind, yields_bind_iff]
  simp only [yields_pure_iff, @eq_comm β b]

theorem yields_lift_iff {outcome : Except Fault α} {a : α} :
    (lift outcome : Traced τ α).Yields a ↔ outcome = .ok a := by
  simp [Yields, lift]

theorem yields_emit_iff {items : List τ} {a : Unit} : (emit items).Yields a ↔ items = [] := by
  simp [Yields, emit]

theorem yields_relabel_iff {f : τ → σ} {m : Traced τ α} {a : α} :
    (m.relabel f).Yields a ↔ m.Yields a := by
  simp [Yields, relabel]

theorem yields_each_iff {f : α → Traced τ β} {items : List α} {results : List β} :
    (each f items).Yields results ↔
      List.Forall₂ (fun a b => (f a).Yields b) items results := by
  induction items generalizing results with
  | nil => cases results <;> simp [each, yields_pure_iff]
  | cons a rest ih =>
    rw [each_cons]
    cases results with
    | nil => simp [yields_bind_iff, yields_map_iff]
    | cons b more => simp [yields_bind_iff, yields_map_iff, ih]

/-- The same is traced in both; under the condition the two are the same altogether. -/
structure Alike (condition : Prop) (m m' : Traced τ α) : Prop where
  trace : m.trace = m'.trace
  same : condition → m = m'

namespace Alike
variable {C D : Prop} {m m' : Traced τ α}

theorem of_eq (h : m = m') : Alike C m m' := ⟨congrArg Traced.trace h, fun _ => h⟩

theorem imp (h : Alike C m m') (hC : D → C) : Alike D m m' := ⟨h.trace, fun hD => h.same (hC hD)⟩

theorem relabel (h : Alike C m m') (f : τ → σ) : Alike C (m.relabel f) (m'.relabel f) :=
  ⟨congrArg (List.map f) h.trace, fun hC => congrArg (Traced.relabel f) (h.same hC)⟩

theorem bind_of_quiet (h : Alike C m m') {f : α → Traced τ β} (quiet : ∀ a, (f a).trace = []) :
    Alike C (m >>= f) (m' >>= f) := by
  refine ⟨?_, fun hC => congrArg (· >>= f) (h.same hC)⟩
  rw [trace_bind_of_quiet quiet, trace_bind_of_quiet quiet, h.trace]

theorem map (h : Alike C m m') (f : α → β) : Alike C (f <$> m) (f <$> m') := by
  rw [map_eq_pure_bind, map_eq_pure_bind]
  exact h.bind_of_quiet fun _ => rfl

/-- What comes after is alike whatever comes before it, if both of these end. -/
theorem bind (h : Alike C m m') (hm : m.Ends) (hm' : m'.Ends) {f g : α → Traced τ β}
    (hf : ∀ a b, (f a).trace = (g b).trace) (same : C → f = g) :
    Alike C (m >>= f) (m' >>= g) := by
  obtain ⟨a, ha⟩ := hm
  obtain ⟨b, hb⟩ := hm'
  refine ⟨?_, fun hC => by rw [h.same hC, same hC]⟩
  rw [trace_bind ha, trace_bind hb, h.trace, hf a b]

theorem each {f g : α → Traced τ β} {items : List α} (h : ∀ a ∈ items, Alike C (f a) (g a))
    (hf : ∀ a ∈ items, (f a).Ends) (hg : ∀ a ∈ items, (g a).Ends) :
    Alike C (each f items) (each g items) := by
  refine ⟨?_, fun hC => each_congr (List.forall₂_same.mpr fun a ha => (h a ha).same hC)⟩
  rw [trace_each hf, trace_each hg]
  exact List.flatMap_congr fun a ha => (h a ha).trace

end Alike

end Traced

end ServiceModel
