/-!
# Settings of the log

How much is logged, and where to. The environment can set it alone (`LogSettings.ofEnvironment`), or
override what a configuration says (`LogSettings.override`). The names of its variables
begin with that of the program.
-/

namespace ForeignCall.Settings

/-- How much is logged, from everything to errors alone. -/
inductive Level where
  | trace
  | debug
  | info
  | warn
  | error
  deriving DecidableEq, Repr

namespace Level

/-- The level of a name, in any case of letters. -/
def ofName? (name : String) : Option Level :=
  match name.toLower with
  | "trace" => some .trace
  | "debug" => some .debug
  | "info" => some .info
  | "warn" => some .warn
  | "warning" => some .warn
  | "error" => some .error
  | _ => none

/-- The name of a level. -/
def name : Level → String
  | .trace => "TRACE"
  | .debug => "DEBUG"
  | .info => "INFO"
  | .warn => "WARN"
  | .error => "ERROR"

theorem ofName?_name (l : Level) : ofName? l.name = some l := by
  cases l <;> decide +kernel

end Level

/-- What is logged, and where to. -/
structure LogSettings where
  level : Level
  /-- Whether the log goes to a file. -/
  toFile : Bool
  path : Option String
  /-- Whether the log is written as JSON. -/
  json : Bool
  /-- Whether entering and leaving spans is logged. -/
  spans : Bool
  /-- Whether native calls are timed. -/
  timing : Bool
  deriving DecidableEq, Repr

/-- The variables of an environment, with their values. -/
abbrev Variables : Type := List (String × String)

namespace LogSettings

/-- The settings when nothing is asked for. -/
def default : LogSettings := ⟨.info, false, none, false, false, true⟩

/-- Settings that log as little as possible. -/
def performance : LogSettings := ⟨.error, false, none, false, false, false⟩

/-- Settings that log everything, to a file named after the program. -/
def debug (program : String) : LogSettings :=
  ⟨.trace, true, some s!"{program}.log", false, true, true⟩

/-- The value of a variable of the program. -/
def ask? (program : String) (env : Variables) (name : String) : Option String :=
  env.lookup s!"{program.toUpper}_LOG_{name}"

/-- The settings that an environment asks for; a level of an unknown name counts as `info`. -/
def ofEnvironment (program : String) (env : Variables) : LogSettings :=
  let get := ask? program env
  let file := get "FILE"
  { level := ((get "LEVEL").bind Level.ofName?).getD .info
    toFile := file.isSome
    path := file
    json := (get "JSON").isSome
    spans := (get "SPANS").isSome
    timing := match get "PERF" with
      | some v => v == "1" || v.toLower == "true"
      | none => default.timing }

/-- Settings where an environment takes precedence: its level if it has one, its file if it names
one, and its timing always. -/
def override (s : LogSettings) (program : String) (env : Variables) : LogSettings :=
  let asked := ofEnvironment program env
  { level := if (ask? program env "LEVEL").isSome then asked.level else s.level
    toFile := s.toFile || asked.toFile
    path := if asked.toFile then asked.path else s.path
    json := s.json || asked.json
    spans := s.spans || asked.spans
    timing := asked.timing }

end LogSettings

end ForeignCall.Settings
