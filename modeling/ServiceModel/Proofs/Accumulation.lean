import ServiceModel.Proofs.Shape.Collecting

/-!
# Readers do not interfere

All that is read for one shape shares one list of issues. A reader only appends to the list and
never looks at it, so what it answers and what it appends are the same after every history. Only
the last step looks: it makes a shape if nothing at all has been reported, by whichever reader.
-/
namespace ServiceModel

namespace Collector

/-- One use of a reader: what it reads, and at which path. -/
structure Call where
  kind : ContentKind
  node : Value
  path : Path

variable (collector : Collector)

def answer (call : Call) : Collector × Except Fault (Option Content) :=
  collector.take call.path (Reading.content call.kind call.node)

/-- Answers calls one after the other. A fault ends the call in which it occurs and no other. -/
def serve : Collector → List Call → Collector × List (Except Fault (Option Content))
  | collector, [] => (collector, [])
  | collector, call :: rest =>
    let (next, result) := collector.answer call
    let (last, results) := next.serve rest
    (last, result :: results)

/-- A collector for the same shape that has read nothing yet. -/
def fresh : Collector := ⟨collector.path, []⟩

/-- The collector after more issues were found. -/
def holding (found : List Issue) : Collector := ⟨collector.path, collector.issues ++ found⟩

theorem holding_holding (found more : List Issue) :
    (collector.holding found).holding more = collector.holding (found ++ more) :=
  congrArg (Collector.mk collector.path) (List.append_assoc ..)

theorem fresh_holding (found : List Issue) : (collector.holding found).fresh = collector.fresh :=
  rfl

theorem answer_eq (call : Call) : collector.answer call =
    (collector.holding (collector.fresh.answer call).1.issues,
      (collector.fresh.answer call).2) := rfl

/-- What one call does does not depend on the calls before it, so neither does a history. -/
theorem serve_eq (calls : List Call) : collector.serve calls =
    (collector.holding (calls.flatMap fun call => (collector.fresh.answer call).1.issues),
      calls.map fun call => (collector.fresh.answer call).2) := by
  induction calls generalizing collector with
  | nil => exact congrArg (·, []) (congrArg (Collector.mk _) (List.append_nil _).symm)
  | cons call rest ih =>
    rw [serve, answer_eq]
    dsimp only
    rw [ih, fresh_holding, holding_holding, List.flatMap_cons, List.map_cons]

theorem serve_take_prefix (calls : List Call) (n : Nat) :
    (collector.serve (calls.take n)).1.issues <+: (collector.serve calls).1.issues := by
  rw [serve_eq, serve_eq]
  exact (List.prefix_append_right_inj _).mpr ((calls.take_prefix n).flatMap _)

section
variable (type : ShapeType) (node : Value)

theorem finish_eq : (collector.finish type node).1 =
    collector.holding (collector.fresh.finish type node).1.issues := rfl

/-- With an issue at hand nothing is made of what was read. -/
theorem finish_of_issues (h : (collector.finish type node).1.issues ≠ []) :
    (collector.finish type node).2 = (fun _ => none) <$> (Draft.read type node).outcome := by
  have held : ¬ (collector.finish type node).1.issues.isEmpty = true := fun he =>
    h (List.isEmpty_iff.mp he)
  rw [map_eq_pure_bind]
  exact bind_congr fun draft => if_neg held

/-- A build that ends where nothing was read before has read its definition to the end. -/
theorem finish_of_fresh {result : Option Shape} (h : (collector.finish type node).1.issues ≠ [])
    (ends : (collector.fresh.finish type node).2 = .ok result) :
    (collector.finish type node).2 = .ok none := by
  obtain ⟨draft, hd, -⟩ := Fault.bind_eq_ok_iff.mp ends
  rw [finish_of_issues collector type node h]
  exact Fault.map_eq_ok_iff.mpr ⟨draft, hd, rfl⟩

theorem finish_eq_some {shape : Shape} (h : (collector.finish type node).2 = .ok (some shape)) :
    collector.issues = [] ∧
      collector.fresh.finish type node = (collector.fresh, .ok (some shape)) := by
  obtain ⟨empty, draft, yields, made⟩ := Shape.finish_eq_ok_some_iff.mp h
  refine ⟨empty, Prod.ext ?_ (Shape.finish_eq_ok_some_iff.mpr ⟨rfl, draft, yields, made⟩)⟩
  change Collector.mk _ ([] ++ (Draft.read type node).trace.map _) = _
  rw [yields.1]
  rfl

end

end Collector

namespace Collecting
open Collector (Call)

def answer (call : Call) : Collecting (Option Content) := content call.kind call.node call.path

/-- The calls, made to readers that share one list. -/
def serve (calls : List Call) : StateM (List Issue) (List (Except Fault (Option Content))) :=
  calls.mapM fun call => (answer call).run

theorem run_answer (collector : Collector) (call : Call) :
    (answer call).run collector.issues =
      ((collector.answer call).2, (collector.answer call).1.issues) :=
  content_follows call.kind call.node collector.issues

/-- The collector holds what the shared list holds. -/
theorem run_serve (collector : Collector) (calls : List Call) :
    (serve calls).run collector.issues =
      ((collector.serve calls).2, (collector.serve calls).1.issues) := by
  induction calls generalizing collector with
  | nil => rfl
  | cons call rest ih =>
    have step : (answer call).run.run collector.issues =
        ((collector.answer call).2, (collector.answer call).1.issues) := run_answer collector call
    rw [serve, List.mapM_cons, StateT.run_bind, step]
    -- The rest is served with the list that the first call leaves, whether or not that call faulted.
    change (serve rest >>= fun results => pure ((collector.answer call).2 :: results)).run
      (collector.answer call).1.issues = _
    rw [StateT.run_bind, ih]
    rfl

end Collecting

/-- Calls made one after the other, each answered as if nothing had been read before, and a build
after them. The issues held at the end are those held at the beginning, those of each call on its
own, and those of the build on its own, and nothing that was held is lost on the way. With issues a
build gives none, unless the definition cannot be read; a shape is made only if nobody has reported
anything. All of this is what readers do that share one list of issues. -/
theorem collectors_accumulate (collector : Collector) (calls : List Collector.Call)
    (type : ShapeType) (node : Value) :
    let served := collector.serve calls
    let built := served.1.finish type node
    let alone := collector.fresh.finish type node
    (Collecting.serve calls).run collector.issues = (served.2, served.1.issues) ∧
    (Collecting.build type node collector.path).run served.1.issues = (built.2, built.1.issues) ∧
    served.2 = calls.map (fun call => (collector.fresh.answer call).2) ∧
    served.1.issues =
      collector.issues ++ calls.flatMap (fun call => (collector.fresh.answer call).1.issues) ∧
    (∀ n, (collector.serve (calls.take n)).1.issues <+: served.1.issues) ∧
    built.1.issues = served.1.issues ++ alone.1.issues ∧
    (built.1.issues ≠ [] → built.2 = (fun _ => none) <$> (Draft.read type node).outcome ∧
      ∀ result, alone.2 = .ok result → built.2 = .ok none) ∧
    ∀ shape, built.2 = .ok (some shape) →
      collector.issues = [] ∧ (∀ call ∈ calls, (collector.fresh.answer call).1.issues = []) ∧
        alone = (collector.fresh, .ok (some shape)) := by
  intro served built alone
  have answered := collector.serve_eq calls
  have path : served.1.path = collector.path := congrArg (·.1.path) answered
  have fresh : served.1.fresh = collector.fresh := congrArg (·.1.fresh) answered
  have first : served.1.fresh.finish type node = alone := congrArg (·.finish type node) fresh
  have held : served.1.issues =
      collector.issues ++ calls.flatMap fun call => (collector.fresh.answer call).1.issues :=
    congrArg (·.1.issues) answered
  refine ⟨Collecting.run_serve collector calls, ?_, congrArg Prod.snd answered, held,
    collector.serve_take_prefix calls, ?_, fun h => ⟨?_, fun result ends => ?_⟩, fun shape made => ?_⟩
  · rw [← path]
    exact Collecting.run_build served.1 type node
  · rw [← first]
    exact congrArg Collector.issues (served.1.finish_eq type node)
  · exact served.1.finish_of_issues type node h
  · rw [← first] at ends
    exact served.1.finish_of_fresh type node h ends
  · obtain ⟨empty, made⟩ := served.1.finish_eq_some type node made
    obtain ⟨before, each⟩ := List.append_eq_nil_iff.mp (held.symm.trans empty)
    rw [first, fresh] at made
    exact ⟨before, List.flatMap_eq_nil_iff.mp each, made⟩

end ServiceModel
