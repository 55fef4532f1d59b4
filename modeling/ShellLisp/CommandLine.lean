import ShellLisp.CommandLine.Options
import ShellLisp.Expr.Reading
import ShellLisp.Process.Program
import ShellLisp.Session.Interactive
import ShellLisp.Settings

/-!
# The command line

What the program does for its arguments: it evaluates the code or the file that they give, or shows
how either is read, or else runs an interactive session on its input. The main statement is that
arguments which cannot be read end the run with status 2 and leave the files alone.
-/

namespace ShellLisp

structure Surroundings where
  environment : Environment
  files : FileTree
  directory : Path
  home : Path
  input : String

/-- What a run leaves behind: its status, or the failure that ended it; what it wrote to either
channel; and the files. -/
structure Finished where
  status : Except Failure Nat
  output : String
  errors : String
  files : FileTree

namespace CommandLine

def usage : String :=
  "usage: lish [-h] [-c CODE] [--ast] [--log-level LOG_LEVEL] [--version] [file]\n"

def helpText : String :=
  usage ++ "
A Lisp-flavoured shell

positional arguments:
  file                  script to run

options:
  -h, --help            show this help message and exit
  -c CODE               evaluate CODE and exit
  --ast                 print the desugared tree instead of evaluating
  --log-level LOG_LEVEL
                        logging level (default: $LISH_LOG_LEVEL or WARNING)
  --version             show program's version number and exit
"

def versionText : String := "lish 0.1.0\n"

/-- What a run writes to its output for an event. -/
def outputOf : Event → String
  | .output text => text
  | .prompt text => text
  | .reply line => line ++ "\n"
  | _ => ""

/-- What a run writes to its errors for an event, if log records of the given rank are shown. -/
def errorsOf (rank : Nat) : Event → String
  | .diagnostic text => text
  | .logged record =>
      if rank ≤ record.severity.rank then
        record.severity.name ++ " " ++ record.source ++ ": " ++ record.text ++ "\n"
      else ""
  | _ => ""

def finish (rank : Nat) (status : Except Failure Nat) (session : Session) : Finished :=
  let events := session.events.toList
  { status
    output := String.join (events.map outputOf)
    errors := String.join (events.map (errorsOf rank))
    files := session.files }

/-- A session without definitions, which runs commands on the files around it. -/
def newSession (around : Surroundings) : Session :=
  .start around.files around.directory around.home .system

def reportError (session : Session) (text : String) : Session :=
  session.record (.diagnostic ("error: " ++ text ++ "\n"))

/-- How a run ends on a failure: a problem of the program is reported, any other failure ends the
run as it is. -/
def endOn (session : Session) : Failure → Except Failure Nat × Session
  | .problem problem => (.ok 1, reportError session problem.text)
  | failure => (.error failure, session)

/-- How a run ends that prints a text, if there is one. -/
def endWith (session : Session) : Except Failure (Option String) → Except Failure Nat × Session
  | .ok none => (.ok 0, session)
  | .ok (some text) => (.ok 0, session.record (.output (text ++ "\n")))
  | .error failure => endOn session failure

def treeStyle : Style := { Style.ofOptions defaultOptions with colour := false }

def treeText (source : String) : Except Failure (Option String) := do
  match ← Expr.read source with
  | none => return none
  | some e => return some (← e.laidOut treeStyle)

def withArguments (session : Session) (arguments : List String) : Session :=
  let (value, store) := session.store.newArray (arguments.map Value.string).toArray
  { session with store }.define "argv" value

/-- Evaluates source text and prints its value, unless that is null. -/
def evaluateSource (session : Session) (source : String) : Except Failure Nat × Session :=
  match session.evaluate source with
  | (.error failure, after) => endOn after failure
  | (.ok .null, after) => (.ok 0, after)
  | (.ok value, after) =>
      match after.store.text false value with
      | .ok text => endWith after (.ok (some text))
      | .error failure => (.error failure, after)

def runSource (session : Session) (tree : Bool) (arguments : List String) (source : String) :
    Except Failure Nat × Session :=
  if tree then endWith session (treeText source)
  else evaluateSource (withArguments session arguments) source

def runFile (session : Session) (options : RunOptions) (file : String) :
    Except Failure Nat × Session :=
  match session.files.follow session.directory file with
  | .error fault => endOnFault session fault
  | .ok path =>
      match session.files.readText path file with
      | .error fault => endOnFault session fault
      | .ok source => runSource session options.tree (file :: options.rest) source
where
  /-- How a run ends on a fault: one of the file system is reported. -/
  endOnFault (session : Session) (fault : Fault) : Except Failure Nat × Session :=
    if fault.kind.isOfFiles then (.ok 1, reportError session fault.text)
    else (.error (.fault fault), session)

/-- A session in which the prelude was evaluated; a problem of the prelude is reported, and the
session is then a new one. -/
def evaluatePrelude (around : Surroundings) (path : WrittenPath) (source : String) :
    Except Failure Session × Session :=
  let session := newSession around
  if source.isEmpty then (.ok session, session)
  else
    match session.evaluate source with
    | (.ok _, after) => (.ok after, after)
    | (.error (.problem problem), after) =>
        let fresh := { newSession { around with files := after.files } with events := after.events }
        let message := "error in " ++ path.text ++ ": " ++ problem.text ++ "\n"
        let told := fresh.record (.diagnostic message)
        (.ok told, told)
    | (.error failure, after) => (.error failure, after)

/-- The lines of an input; the last one counts even if it is not ended. -/
def inputLines (input : String) : List InputLine :=
  let lines := Text.split ['\n'] input.toList
  let ended := if lines.getLast? == some [] then lines.dropLast else lines
  ended.map fun line => .text (String.ofList line)

def runInput (around : Surroundings) : Except Failure Nat × Session :=
  let unchanged := newSession around
  let settled : Except Failure (WrittenPath × String) := do
    let path ← Failure.lift (Settings.preludePath around.environment around.home)
    let source ← Failure.lift
      (Settings.prelude around.environment around.files around.directory around.home)
    return (path, source.getD "")
  match settled with
  | .error failure => (.error failure, unchanged)
  | .ok (path, source) =>
      match evaluatePrelude around path source with
      | (.error failure, after) => (.error failure, after)
      | (.ok session, _) =>
          match Settings.printOptions around.environment,
              Settings.historyPath around.environment around.home with
          | .error failure, _ => (.error failure, session)
          | _, .error fault => (.error (.fault fault), session)
          | .ok options, .ok history =>
              let (result, ended) := session.installCommands.runInteractive (.ofOptions options)
                (some history) (inputLines around.input)
              (result.map fun _ => 0, ended)

def perform (around : Surroundings) (options : RunOptions) : Except Failure Nat × Session :=
  match options.code, options.file with
  | some code, file =>
      runSource (newSession around) options.tree (file.toList ++ options.rest) code
  | none, some file => runFile (newSession around) options file
  | none, none => runInput around

def run (around : Surroundings) (arguments : List String) : Finished :=
  match read arguments with
  | .error mistake => ⟨.ok 2, "", usage ++ "lish: error: " ++ mistake.message ++ "\n", around.files⟩
  | .ok .help => ⟨.ok 0, helpText, "", around.files⟩
  | .ok .version => ⟨.ok 0, versionText, "", around.files⟩
  | .ok (.run options) =>
      let (status, session) := perform around options
      finish (Settings.logRank around.environment options.logLevel) status session

theorem run_of_mistake {around : Surroundings} {arguments : List String} {mistake : ArgumentMistake}
    (unread : read arguments = .error mistake) :
    (run around arguments).status = .ok 2 ∧ (run around arguments).files = around.files := by
  simp [run, unread]

end CommandLine

end ShellLisp
