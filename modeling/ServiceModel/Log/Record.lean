import ServiceModel.Text.Cut
import ServiceModel.Value.Literal

/-!
# Log records

A record names the logger that it goes to and has a level; the higher the level, the graver. Five
levels have names. The message of a record is made from a pattern and its arguments: most records
have a pattern without arguments, which is then the message itself.
-/
namespace ServiceModel.Log

namespace Level

def debug : Int := 10
def info : Int := 20
def warning : Int := 30
def error : Int := 40
def critical : Int := 50

def name (level : Int) : String :=
  if level = critical then "CRITICAL"
  else if level = error then "ERROR"
  else if level = warning then "WARNING"
  else if level = info then "INFO"
  else if level = debug then "DEBUG"
  else s!"Level {level}"

end Level

/-- Where a record is made. The module is the last part of the name of the logger. -/
structure Place where
  function : String
  line : Nat
deriving DecidableEq, Repr

structure Record where
  logger : String
  level : Int
  message : String
  pattern : String
  arguments : List String
  place? : Option Place
deriving DecidableEq, Repr

/-- What a line can show of a field: its value or, where that depends on the surroundings of the
program, only how its text and its literal begin. -/
inductive FieldValue
  | known (value : Value)
  | begun (text literal : String)

namespace FieldValue

def begunText (start : String) : FieldValue := .begun start ("\x27" ++ start)

def begunNumber (start : String) : FieldValue := .begun start start

def literalStart : FieldValue → String
  | .known value => value.literal
  | .begun _ literal => literal

end FieldValue

namespace Record

/-- A record whose message is its pattern. -/
def plain (place : Place) (logger : String) (level : Int) (message : String) : Record :=
  ⟨logger, level, message, message, [], some place⟩

/-- A record whose message is the only argument of a pattern that stands for any text. -/
def ofArgument (logger : String) (level : Int) (message : String) : Record :=
  ⟨logger, level, message, "%s", [message], none⟩

def module (record : Record) : String :=
  String.ofList (Text.afterLast '.' record.logger.toList)

/-- A field that is determined by the place of a record. -/
def atPlace (record : Record) (value : Place → Value) (unknown : FieldValue) : FieldValue :=
  match record.place? with
  | some place => .known (value place)
  | none => unknown

/-- The fields of a record that a line can show. All records come from one thread of one process,
and none of them reports a failure. Paths are absolute; times are counted in seconds since 1970,
and dates begin with the year. -/
def field? (record : Record) (name : String) : Option FieldValue :=
  match name with
  | "name" => some (.known (.str record.logger))
  | "levelname" => some (.known (.str (Level.name record.level)))
  | "levelno" => some (.known (.int record.level))
  | "message" => some (.known (.str record.message))
  | "msg" => some (.known (.str record.pattern))
  | "args" => some (.known (.tuple (record.arguments.map .str)))
  | "processName" => some (.known (.str "MainProcess"))
  | "threadName" => some (.known (.str "MainThread"))
  | "exc_info" => some (.known .null)
  | "exc_text" => some (.known .null)
  | "stack_info" => some (.known .null)
  | "module" => some (record.atPlace (fun _ => .str record.module) (.begunText ""))
  | "filename" => some (record.atPlace (fun _ => .str (record.module ++ ".py")) (.begunText ""))
  | "funcName" => some (record.atPlace (fun place => .str place.function) (.begunText ""))
  | "lineno" => some (record.atPlace (fun place => .int place.line) (.begunNumber ""))
  | "pathname" => some (.begunText "/")
  | "asctime" => some (.begunText "20")
  | "created" => some (.begunNumber "1")
  | "msecs" => some (.begunNumber "")
  | "relativeCreated" => some (.begunNumber "")
  | "process" => some (.begunNumber "")
  | "thread" => some (.begunNumber "")
  | _ => none

/-- The fields that a record begins with, in their order, up to the first that is not known. -/
def firstFields : List String := ["name", "msg", "args", "levelname", "levelno", "pathname"]

def whole (record : Record) : FieldValue :=
  let parts := firstFields.map fun name => (Scalar.str name).literal ++ ": "
    ++ ((record.field? name).map FieldValue.literalStart).getD ""
  let start := "\x7b" ++ ", ".intercalate parts
  .begun start start

theorem field?_message (record : Record) :
    record.field? "message" = some (.known (.str record.message)) := rfl

end Record

end ServiceModel.Log
