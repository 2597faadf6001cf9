import ServiceModel.Log.LoggerName
import ServiceModel.Log.Template

/-!
# The tree of loggers

A logger is made when its name is first used. Its parent is then the nearest logger that has one
of the stems of its name, or the root. The stems that were passed over are gaps: each remembers
the loggers below it, and when a logger is made in a gap, these become its children, unless their
parent's name begins with the name of the new logger.
-/
namespace ServiceModel.Log

inductive Stream
  | out
  | err
deriving DecidableEq, Repr

structure Handler where
  stream : Stream
  level : Int
  ceiling : Option Int
  template : Template
deriving DecidableEq, Repr

def Handler.takes (handler : Handler) (level : Int) : Bool :=
  handler.level ≤ level && match handler.ceiling with
    | some ceiling => level ≤ ceiling
    | none => true

/-- A level of zero is no level. `decided` holds what was decided about the levels of records since
a level was last set. -/
structure Logger where
  level : Int
  handlers : List Handler
  decided : List (Int × Bool)
deriving DecidableEq, Repr

def Logger.fresh : Logger := ⟨0, [], []⟩

def Logger.forget (logger : Logger) : Logger := { logger with decided := [] }

inductive Slot
  | logger (logger : Logger) (parent : LoggerName)
  | gap (below : List String)
deriving DecidableEq, Repr

def Slot.forget : Slot → Slot
  | .logger held parent => .logger held.forget parent
  | .gap below => .gap below

structure Loggers where
  root : Logger
  slots : List (String × Slot)
deriving DecidableEq, Repr

namespace Loggers

def slot? (loggers : Loggers) (name : String) : Option Slot :=
  (loggers.slots.find? fun entry => entry.1 == name).map (·.2)

def setSlot (loggers : Loggers) (name : String) (slot : Slot) : Loggers :=
  { loggers with slots := (name, slot) :: loggers.slots.filter fun entry => entry.1 != name }

theorem slot?_setSlot (loggers : Loggers) (name : String) (slot : Slot) :
    (loggers.setSlot name slot).slot? name = some slot := by
  simp [setSlot, slot?]

def parent (loggers : Loggers) (name : String) : LoggerName :=
  match loggers.slot? name with
  | some (.logger _ parent) => parent
  | _ => .root

def get (loggers : Loggers) : LoggerName → Logger
  | .root => loggers.root
  | .named name => match loggers.slot? name with
    | some (.logger logger _) => logger
    | _ => .fresh

def put (loggers : Loggers) (name : LoggerName) (logger : Logger) : Loggers :=
  match name with
  | .root => { loggers with root := logger }
  | .named name => loggers.setSlot name (.logger logger (loggers.parent name))

theorem get_put (loggers : Loggers) (name : LoggerName) (logger : Logger) :
    (loggers.put name logger).get name = logger := by
  cases name <;> simp [put, get, slot?_setSlot]

/-! ## Making loggers -/

/-- Notes in the gaps under the stems that a logger is below them, up to the first logger, which is
its parent. -/
def settle (name : String) : List String → Loggers → Loggers × LoggerName
  | [], loggers => (loggers, .root)
  | stem :: rest, loggers =>
    match loggers.slot? stem with
    | some (.logger _ _) => (loggers, .named stem)
    | some (.gap below) => settle name rest (loggers.setSlot stem (.gap (below ++ [name])))
    | none => settle name rest (loggers.setSlot stem (.gap [name]))

theorem settle_parent (name : String) (stems : List String) (loggers : Loggers) :
    (settle name stems loggers).2 = .root ∨
      ∃ stem ∈ stems, (settle name stems loggers).2 = .named stem := by
  fun_induction settle name stems loggers with
  | case1 => exact .inl rfl
  | case2 stem rest => exact .inr ⟨stem, List.mem_cons_self, rfl⟩
  | case3 stem rest _ _ _ ih =>
    exact ih.imp_right fun ⟨s, hs, h⟩ => ⟨s, List.mem_cons_of_mem _ hs, h⟩
  | case4 stem rest _ _ ih =>
    exact ih.imp_right fun ⟨s, hs, h⟩ => ⟨s, List.mem_cons_of_mem _ hs, h⟩

/-- Makes a logger the parent of another one, unless the name of the other one's parent begins with
that of the logger. -/
def adopt (name : String) (loggers : Loggers) (child : String) : Loggers :=
  match loggers.slot? child with
  | some (.logger logger parent) =>
    if name.toList.isPrefixOf parent.text.toList then loggers
    else loggers.setSlot child (.logger logger (.named name))
  | _ => loggers

def register (loggers : Loggers) : LoggerName → Loggers
  | .root => loggers
  | .named name =>
    match loggers.slot? name with
    | some (.logger _ _) => loggers
    | found =>
      let adopted := match found with
        | some (.gap below) => below.foldl (adopt name) loggers
        | _ => loggers
      let (settled, parent) := settle name (LoggerName.stems name) adopted
      settled.setSlot name (.logger .fresh parent)

/-! ## The way up -/

/-- A logger and all loggers above it, the root last. A parent has a shorter name than its child,
so the length of the name bounds the number of steps. -/
def chainWithin (loggers : Loggers) : Nat → LoggerName → List LoggerName
  | 0, _ => [.root]
  | _, .root => [.root]
  | steps + 1, .named name => .named name :: chainWithin loggers steps (loggers.parent name)

def chain (loggers : Loggers) (name : LoggerName) : List LoggerName :=
  chainWithin loggers (name.text.length + 1) name

theorem root_mem_chainWithin (loggers : Loggers) (steps : Nat) (name : LoggerName) :
    .root ∈ chainWithin loggers steps name := by
  fun_induction chainWithin loggers steps name with
  | case1 => exact List.mem_cons_self
  | case2 => exact List.mem_cons_self
  | case3 _ _ ih => exact List.mem_cons_of_mem _ ih

theorem root_mem_chain (loggers : Loggers) (name : LoggerName) : .root ∈ loggers.chain name :=
  root_mem_chainWithin loggers _ name

end Loggers

end ServiceModel.Log
