import ServiceModel.Log.Loggers

/-!
# Routing records to the two output streams

A record is dropped if it is below the level in force for its logger: that of the nearest logger up
the tree that has one. Otherwise it goes to the handlers of its logger and of all loggers above it,
each of which writes the records between its own level and its ceiling. Where there is no handler
at all, a warning or worse is written bare to the error stream.

What a logger has decided about a level stands until some level is set.

A split logger has two handlers: records below a threshold go to the standard stream, the others
to the error stream.
-/
namespace ServiceModel.Log

structure Output where
  out : String
  err : String
deriving DecidableEq, Repr

namespace Output

def empty : Output := ⟨"", ""⟩

def write (output : Output) (stream : Stream) (text : String) : Output :=
  match stream with
  | .out => { output with out := output.out ++ text }
  | .err => { output with err := output.err ++ text }

end Output

namespace Loggers

def levelInForce (loggers : Loggers) (name : LoggerName) : Int :=
  (((loggers.chain name).map fun n => (loggers.get n).level).find? (· != 0)).getD 0

def handlersFor (loggers : Loggers) (name : LoggerName) : List Handler :=
  (loggers.chain name).flatMap fun n => (loggers.get n).handlers

/-- A record with a level of zero or below is always dropped. -/
def admits (loggers : Loggers) (name : LoggerName) (level : Int) : Bool :=
  0 < level && loggers.levelInForce name ≤ level

/-- The decision on a level, and the loggers that remember it. -/
def judge (loggers : Loggers) (name : LoggerName) (level : Int) : Bool × Loggers :=
  let logger := loggers.get name
  match logger.decided.lookup level with
  | some decision => (decision, loggers)
  | none =>
    let decision := loggers.admits name level
    (decision, loggers.put name { logger with decided := (level, decision) :: logger.decided })

theorem judge_again (loggers : Loggers) (name : LoggerName) (level : Int) :
    (loggers.judge name level).2.judge name level = loggers.judge name level := by
  cases h : (loggers.get name).decided.lookup level with
  | some decision => simp only [judge, h]
  | none => simp only [judge, h, get_put, List.lookup_cons_self]

def deliver (handlers : List Handler) (record : Record) (output : Output) : Output :=
  (handlers.filter (·.takes record.level)).foldl (fun output handler =>
    match handler.template.line? record with
    | some line => output.write handler.stream line
    | none => output) output

/-- The output after a record was handed to its logger. -/
def emit (loggers : Loggers) (output : Output) (record : Record) : Loggers × Output :=
  let name := LoggerName.ofText record.logger
  let (admitted, loggers) := (loggers.register name).judge name record.level
  if admitted then
    let handlers := loggers.handlersFor name
    if handlers.isEmpty then
      (loggers, if Level.warning ≤ record.level then output.write .err (record.message ++ "\n")
        else output)
    else (loggers, deliver handlers record output)
  else (loggers, output)

def emitAll (loggers : Loggers) (records : List Record) : Loggers × Output :=
  records.foldl (fun state record => state.1.emit state.2 record) (loggers, .empty)

/-! ## Setting up -/

def clearHandlers (loggers : Loggers) (name : LoggerName) : Loggers :=
  loggers.put name { loggers.get name with handlers := [] }

def addHandlers (loggers : Loggers) (name : LoggerName) (handlers : List Handler) : Loggers :=
  let logger := loggers.get name
  loggers.put name { logger with handlers := logger.handlers ++ handlers }

def forget (loggers : Loggers) : Loggers :=
  ⟨loggers.root.forget, loggers.slots.map fun entry => (entry.1, entry.2.forget)⟩

def setLevel (loggers : Loggers) (name : LoggerName) (level : Int) : Loggers :=
  forget (loggers.put name { loggers.get name with level := level })

/-- The two handlers of a split logger; the threshold is at least the level of debugging. -/
def splitHandlers (threshold : Int) (template : Template) : List Handler :=
  let threshold := max threshold Level.debug
  [⟨.out, Level.debug, some (threshold - 1), template⟩, ⟨.err, threshold, none, template⟩]

theorem splitHandlers_takes (threshold : Int) (template : Template) (level : Int)
    (h : Level.debug ≤ level) :
    ((splitHandlers threshold template).filter (·.takes level)).length = 1 := by
  by_cases hl : level < max threshold Level.debug
  · have h1 : level ≤ max threshold Level.debug - 1 := by omega
    have h2 : ¬ max threshold Level.debug ≤ level := by omega
    simp [splitHandlers, Handler.takes, h, h1, h2]
  · have h1 : ¬ level ≤ max threshold Level.debug - 1 := by omega
    have h2 : max threshold Level.debug ≤ level := by omega
    simp [splitHandlers, Handler.takes, h1, h2]

end Loggers

end ServiceModel.Log
