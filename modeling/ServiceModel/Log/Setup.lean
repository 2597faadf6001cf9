import ServiceModel.Document.Settings
import ServiceModel.Document.Validation
import ServiceModel.Log.Routing

/-!
# Setting up loggers

A logger is split between the two streams with a level and a threshold. The level may be given as a
number or by its name; the threshold has to be a number. A set-up that is given anything else stops
there, with what was done before it left in place.

The settings name the level and the threshold of the logger of the validator, in any case; an
unknown name gives the default. Two names stand for something else, a line format and a table of
styles, and no logger can be set up with those.
-/
namespace ServiceModel.Log

inductive GivenLevel
  | number (level : Int)
  | text (name : String)
  | table
deriving DecidableEq, Repr

inductive SetupError
  /-- The level to set is a text that names no level. -/
  | unknownLevel (name : String)
  /-- The level to set is neither a number nor a text. -/
  | notALevel
  /-- The threshold cannot be compared with a level. -/
  | thresholdNotANumber
deriving DecidableEq, Repr

namespace GivenLevel

def names : List (String × Int) :=
  [("CRITICAL", Level.critical), ("FATAL", Level.critical), ("ERROR", Level.error),
    ("WARNING", Level.warning), ("WARN", Level.warning), ("INFO", Level.info),
    ("DEBUG", Level.debug), ("NOTSET", 0)]

def level : GivenLevel → Except SetupError Int
  | .number level => .ok level
  | .text name => match names.lookup name with
    | some level => .ok level
    | none => .error (.unknownLevel name)
  | .table => .error .notALevel

def threshold : GivenLevel → Except SetupError Int
  | .number level => .ok level
  | _ => .error .thresholdNotANumber

def lineFormat : String := "%(levelname)s:%(name)s:%(message)s"

theorem level_lineFormat : (text lineFormat).level = .error (.unknownLevel lineFormat) := rfl

def ofSetting (setting : String) (default : Int) : GivenLevel :=
  let name := String.ofList (Text.upper setting.toList)
  match names.lookup name with
  | some level => .number level
  | none =>
    if name = "BASIC_FORMAT" then .text lineFormat
    else if name = "_STYLES" then .table
    else .number default

end GivenLevel

/-- At first only the root has a level, and the loggers of the validator exist. -/
def Loggers.initial : Loggers :=
  [Validation.modelLogger, Validation.shapeLogger].foldl
    (fun loggers name => loggers.register (.named name)) ⟨⟨Level.warning, [], []⟩, []⟩

/-- Gives a logger the two handlers of a split one, in place of those that it has, and a level. -/
def configure (loggers : Loggers) (name : LoggerName) (level threshold : GivenLevel)
    (template : Template) : Loggers × Except SetupError Unit :=
  let cleared := (loggers.register name).clearHandlers name
  match level.level with
  | .error e => (cleared, .error e)
  | .ok level =>
    let leveled := cleared.setLevel name level
    match threshold.threshold with
    | .error e => (leveled, .error e)
    | .ok threshold =>
      (leveled.addHandlers name (Loggers.splitHandlers threshold template), .ok ())

def validatorLogger : LoggerName := .named "smithy_ast"

def setUp (loggers : Loggers) (settings : Settings) : Loggers × Except SetupError Unit :=
  configure loggers validatorLogger (.ofSetting settings.logLevel Level.info)
    (.ofSetting settings.printLevel Level.error) Template.standard

end ServiceModel.Log
