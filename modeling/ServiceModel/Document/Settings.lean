import ServiceModel.Text.Blank
import ServiceModel.Text.Casing
import ServiceModel.Text.Numeral

/-!
# Settings

Whether validation stops at the first rejected shape, how many workers share the work, and what is
logged where. Settings can be read from environment variables; a variable that is not set leaves
the default.
-/
namespace ServiceModel

structure Settings where
  failFast : Bool
  maxWorkers : Int
  logLevel : String
  printLevel : String
deriving DecidableEq, Repr

inductive SettingsError
  | notBoolean (setting text : String)
  | notInteger (setting text : String)
  | tooFew (setting : String) (count : Int)
deriving DecidableEq, Repr

def SettingsError.message : SettingsError → String
  | .notBoolean setting text => s!"Invalid boolean for {setting}: '{text}'"
  | .notInteger setting text => s!"Invalid integer for {setting}: '{text}'"
  | .tooFew setting count => s!"{setting} must be at least 1, got {count}"

namespace Settings

def standard : Settings := ⟨false, 1, "INFO", "ERROR"⟩

def boolean? (text : String) : Option Bool :=
  if ["1", "true", "yes", "on"].contains text then some true
  else if ["0", "false", "no", "off"].contains text then some false
  else none

def readBoolean (setting text : String) : Except SettingsError Bool :=
  let shown := String.ofList (Text.lower (Text.trim text.toList))
  match boolean? shown with
  | some b => .ok b
  | none => .error (.notBoolean setting shown)

def readWorkers (setting text : String) : Except SettingsError Int :=
  let shown := Text.trim text.toList
  match Text.integer? shown with
  | none => .error (.notInteger setting (String.ofList shown))
  | some count => if count < 1 then .error (.tooFew setting count) else .ok count

/-- The settings given by the environment, as a list of variables and their texts. -/
def ofEnvironment (environment : List (String × String)) : Except SettingsError Settings := do
  let get := fun setting => (environment.find? fun entry => entry.1 == setting).map (·.2)
  let failFast ← match get "SMITHY_AST_FAIL_FAST" with
    | some text => readBoolean "SMITHY_AST_FAIL_FAST" text
    | none => .ok standard.failFast
  let maxWorkers ← match get "SMITHY_AST_MAX_WORKERS" with
    | some text => readWorkers "SMITHY_AST_MAX_WORKERS" text
    | none => .ok standard.maxWorkers
  return ⟨failFast, maxWorkers, (get "SMITHY_AST_LOG_LEVEL").getD standard.logLevel,
    (get "SMITHY_AST_PRINT_LEVEL").getD standard.printLevel⟩

end Settings

end ServiceModel
