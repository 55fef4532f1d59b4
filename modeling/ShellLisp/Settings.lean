import ShellLisp.Expr.Layout
import ShellLisp.Json.Reader
import ShellLisp.Library.Files
import ShellLisp.Session
import ShellLisp.Text.Blank
import ShellLisp.Text.Case

/-!
# Settings

What the environment says about a session: where its prelude and its history are, which log records
are shown, and how results are printed. A variable that is empty counts as not set.
-/

namespace ShellLisp

abbrev Environment := List (String × String)

def Fault.notOptions (type : String) : Fault := ⟨.type, "'" ++ type ++ "' object is not a mapping"⟩

/-- The options that a JSON text gives, on top of the default ones; a text that is no JSON gives
none. -/
def PrintOptions.read (text : String) : Except Failure PrintOptions :=
  match Json.readText text.toList with
  | .ok (.object entries) =>
      .ok (entries.foldl (fun found entry => Json.put entry.1 entry.2 found) defaultOptions)
  | .ok other => .error (.fault (.notOptions other.typeName))
  | .error (.malformed _) => .ok defaultOptions
  | .error (.fault fault) => .error (.fault fault)
  | .error .tooDeep => .error .tooDeep

namespace Settings

def setting? (environment : Environment) (name : String) : Option String :=
  (environment.lookup name).filter (!·.isEmpty)

/-- The path that a variable names, or a default; white space around it says nothing. -/
def path (environment : Environment) (home : Path) (name default : String) :
    Except Fault WrittenPath :=
  let given := Text.trim ((environment.lookup name).getD "").toList
  let text := if given.isEmpty then default else String.ofList given
  (WrittenPath.ofText text).expandHome (.ofPath home)

def preludePath (environment : Environment) (home : Path) : Except Fault WrittenPath :=
  path environment home "LISH_PRELUDE_PATH" "~/.lishrc"

def historyPath (environment : Environment) (home : Path) : Except Fault WrittenPath :=
  path environment home "LISH_HISTORY_FILE" "~/.lish_history"

def ranks : List (String × Nat) := [
  ("CRITICAL", 50), ("FATAL", 50), ("ERROR", 40), ("WARN", 30), ("WARNING", 30), ("INFO", 20),
  ("DEBUG", 10), ("NOTSET", 0)]

/-- The least rank of a log record that is shown: what is asked for, or what the environment says. A
name that stands for no rank counts as that of warnings. -/
def logRank (environment : Environment) (asked : Option String) : Nat :=
  let name := ((asked.filter (!·.isEmpty)).or (setting? environment "LISH_LOG_LEVEL")).getD ""
  (ranks.lookup (String.ofList (Text.upper name.toList))).getD Severity.warning.rank

def printOptions (environment : Environment) : Except Failure PrintOptions :=
  match setting? environment "LISH_PPRINT_OPTIONS" with
  | none => .ok defaultOptions
  | some text => PrintOptions.read text

def prelude (environment : Environment) (files : FileTree) (directory home : Path) :
    Except Fault (Option String) := do
  let written ← preludePath environment home
  if written.text.toList.contains '\x00' then return none
  let path := written.resolve directory
  match ← files.look path with
  | some (.file _) => return some (← files.readText path written.text)
  | _ => return none

end Settings

end ShellLisp
