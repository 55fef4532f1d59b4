import ShellLisp.Process.Builtin
import ShellLisp.Process.Channels

/-!
# Running scripts

How a shell runs a script on the files: it expands words, opens redirections, and hands the output
of a command to the next one of its pipeline. A shell that a script launches runs the same way, one
level deeper.
-/

namespace ShellLisp.Process

/-- What launches a shell: the files, the directory, the environment, the arguments and the input
give the files afterwards and what the process leaves behind. -/
abbrev Launcher :=
  FileTree → Path → List (String × String) → List String → List UInt8 → FileTree × Result

namespace ShellState

def external (shell : Launcher) (state : ShellState) (line : Nat) (name : String)
    (arguments : List String) (input : List UInt8) : FileTree × Result :=
  let unknown (status : Int) (reason : String) : FileTree × Result :=
    (state.files, .complaint status (state.speaker line ++ name ++ ": " ++ reason ++ "\n"))
  match name with
  | "cat" => (state.files, concatenate "cat" state.files state.directory input arguments)
  | "sh" => shell state.files state.directory state.environment arguments input
  | _ =>
      if name.toList.contains '/' then
        if (state.entry? name).isSome then unknown 126 "Permission denied"
        else unknown 127 "not found"
      else unknown 127 "not found"

/-- The result of an ended process as a shell sees it: a signal counts from 128, and is named. -/
def observed (result : Result) : Result :=
  if result.status < 0 then
    let named := signals.find? fun signal => signal.2.1 = -result.status
    let said := (named.map fun signal => signal.2.2).getD ""
    let message := if said.isEmpty then said else said ++ "\n"
    { result with status := 128 - result.status, errors := result.errors ++ bytesOf message }
  else result

def runWords (shell : Launcher) (state : ShellState) (line : Nat) (input : List UInt8) :
    List String → ShellState × Result
  | [] => (state, .silent 0)
  | name :: arguments =>
      match state.builtin? line name arguments with
      | some done => done
      | none =>
          let (files, result) := state.external shell line name arguments input
          ({ state with files }, observed result)

def runCommand (shell : Launcher) (state : ShellState) (input : List UInt8)
    (command : ScriptCommand) : ShellState × Result :=
  let settings := command.words.map assignment? |>.takeWhile Option.isSome |>.filterMap id
  let words := (command.words.drop settings.length).flatMap state.expand
  let assigned := settings.foldl (fun found (name, value) =>
    let text := found.expandWhole value
    let environment :=
      if words.isEmpty then found.environment else setVariable name text found.environment
    { found.assign name text with environment }) state
  match state.openAll ⟨input, .output, .errors⟩ command.redirections with
  | .error reason =>
      (state, .complaint 2 (state.speaker command.line ++ reason ++ "\n"))
  | .ok (files, channels) =>
      let (after, result) :=
        runWords shell { assigned with files } command.line channels.input words
      let (written, shown) := route after.files channels result
      let bindings :=
        if words.isEmpty || settings.isEmpty then after.bindings else state.bindings
      ({ after with files := written, bindings, environment := state.environment }, shown)

/-- Runs the commands of a pipeline of several, each in a shell of its own. -/
def runStages (shell : Launcher) (state : ShellState) (input errors : List UInt8) :
    List ScriptCommand → ShellState × Result
  | [] => (state, ⟨0, input, errors⟩)
  | [last] =>
      let (after, result) := state.runCommand shell input last
      ({ state with files := after.files },
        let seen := observed result
        { seen with errors := errors ++ seen.errors })
  | first :: rest =>
      let (after, result) := state.runCommand shell input first
      runStages shell { state with files := after.files } result.output
        (errors ++ result.errors) rest

def runPipeline (shell : Launcher) (state : ShellState) (input : List UInt8) (pipeline : Pipeline) :
    ShellState × Result :=
  match pipeline.commands with
  | [only] => state.runCommand shell input only
  | commands => state.runStages shell input [] commands

def applies (state : ShellState) : Condition → Bool
  | .always => true
  | .afterSuccess => state.status == 0
  | .afterFailure => state.status != 0

/-- Runs pipelines until none is left or the shell ends. -/
def runPipelines (shell : Launcher) (input : List UInt8) :
    ShellState → Result → List Pipeline → ShellState × Result
  | state, found, [] => (state, { found with status := state.status })
  | state, found, pipeline :: rest =>
      match state.ending with
      | some status => (state, { found with status })
      | none =>
          if state.applies pipeline.condition then
            let (after, result) := state.runPipeline shell input pipeline
            runPipelines shell input { after with status := result.status }
              ⟨result.status, found.output ++ result.output, found.errors ++ result.errors⟩ rest
          else runPipelines shell input state found rest

def runScript (shell : Launcher) (state : ShellState) (input : List UInt8) (script : String) :
    FileTree × Result :=
  let (pipelines, mistake) := Script.parse script
  let (after, result) := runPipelines shell input state (.silent 0) pipelines
  match after.ending, mistake with
  | some status, _ => (after.files, { result with status })
  | none, none => (after.files, result)
  | none, some mistake =>
      let message := after.speaker mistake.line ++ "Syntax error: " ++ mistake.reason ++ "\n"
      (after.files, { result with status := 2, errors := result.errors ++ bytesOf message })

def start (files : FileTree) (directory : Path) (environment : List (String × String))
    (name : String) (arguments : List String) : ShellState :=
  { files, directory, environment, name, arguments
    bindings := setVariable "PWD" directory.text environment
    status := 0
    ending := none }

end ShellState

/-- The script that bytes hold; bytes that are no text hold an empty one. -/
def scriptText (bytes : List UInt8) : String :=
  match Text.decode bytes with
  | .ok text => String.ofList text
  | .error _ => ""

def shellDepth : Nat := 64

/-- Runs a shell, under the name that it was called by, that may launch shells as deep as the bound
says. -/
def runShell (called : String) : Nat → Launcher
  | 0, files, _, _, _, _ => (files, .complaint 2 (called ++ ": 0: Cannot fork\n"))
  | depth + 1, files, directory, environment, arguments, input =>
      let run (name : String) (rest : List String) (script : String) : FileTree × Result :=
        let state := .start files directory environment name rest
        ShellState.runScript (runShell "sh" depth) state input script
      match arguments with
      | ["-c"] => (files, .complaint 2 (called ++ ": 0: -c requires an argument\n"))
      | "-c" :: script :: name :: rest => run name rest script
      | ["-c", script] => run called [] script
      | path :: rest =>
          match readWritten files directory path with
          | .ok bytes => run path rest (scriptText bytes)
          | .error fault =>
              if fault.kind = .isDirectory then (files, .silent 0)
              else
                let reason := ShellState.openingProblem fault "No such file"
                let message := "cannot open " ++ path ++ ": " ++ reason ++ "\n"
                (files, .complaint 2 (called ++ ": 0: " ++ message))
      | [] => run called [] (scriptText input)

end ShellLisp.Process
