import ServiceModel.Fault

/-!
# Computations that leave a trace

A traced computation appends to a trace as it goes, and ends with a value or a fault. What was
traced before a fault is kept. Readers of a shape trace issues; the validation of a model traces
log records.
-/
namespace ServiceModel

structure Traced (τ α : Type) where
  trace : List τ
  outcome : Except Fault α

namespace Traced
variable {τ σ α β : Type}

def value (a : α) : Traced τ α := ⟨[], .ok a⟩

def bind (m : Traced τ α) (f : α → Traced τ β) : Traced τ β :=
  match m.outcome with
  | .ok a => ⟨m.trace ++ (f a).trace, (f a).outcome⟩
  | .error fault => ⟨m.trace, .error fault⟩

instance : Monad (Traced τ) where
  pure := value
  bind := bind

def emit (items : List τ) : Traced τ Unit := ⟨items, .ok ()⟩

def lift (outcome : Except Fault α) : Traced τ α := ⟨[], outcome⟩

theorem outcome_lift (outcome : Except Fault α) : (lift outcome : Traced τ α).outcome = outcome :=
  rfl

theorem trace_emit (items : List τ) : (emit items).trace = items := rfl

/-- Changes each item of the trace. -/
def relabel (f : τ → σ) (m : Traced τ α) : Traced σ α := ⟨m.trace.map f, m.outcome⟩

/-- Runs an action on each item in order; the first fault ends the run. -/
def each (f : α → Traced τ β) : List α → Traced τ (List β)
  | [] => pure []
  | a :: rest => do
    let b ← f a
    let more ← each f rest
    return b :: more

theorem each_cons (f : α → Traced τ β) (a : α) (rest : List α) :
    each f (a :: rest) = f a >>= fun b => each f rest >>= fun more => pure (b :: more) := rfl

theorem bind_of_ok {m : Traced τ α} {a : α} (h : m.outcome = .ok a) (f : α → Traced τ β) :
    m >>= f = ⟨m.trace ++ (f a).trace, (f a).outcome⟩ := by
  change bind m f = _
  simp [bind, h]

theorem bind_of_error {m : Traced τ α} {fault : Fault} (h : m.outcome = .error fault)
    (f : α → Traced τ β) : m >>= f = ⟨m.trace, .error fault⟩ := by
  change bind m f = _
  simp [bind, h]

instance : LawfulMonad (Traced τ) :=
  LawfulMonad.mk' _
    (fun ⟨trace, outcome⟩ => by
      change bind ⟨trace, outcome⟩ (fun a => value (id a)) = _
      cases outcome <;> simp [bind, value])
    (fun a f => by
      change bind (value a) f = f a
      simp [bind, value])
    (fun ⟨trace, outcome⟩ f g => by
      change bind (bind ⟨trace, outcome⟩ f) g = bind ⟨trace, outcome⟩ fun a => bind (f a) g
      cases outcome with
      | error fault => simp [bind]
      | ok a => cases h : (f a).outcome <;> simp [bind, h])

theorem relabel_bind (g : τ → σ) (m : Traced τ α) (f : α → Traced τ β) :
    (m >>= f).relabel g = m.relabel g >>= fun a => (f a).relabel g := by
  cases h : m.outcome with
  | ok a =>
    rw [bind_of_ok h, bind_of_ok (show (m.relabel g).outcome = .ok a from h)]
    simp [relabel]
  | error fault =>
    rw [bind_of_error h, bind_of_error (show (m.relabel g).outcome = .error fault from h)]
    simp [relabel]

end Traced

end ServiceModel
