import ShellLisp.Session
import ShellLisp.Text.Lines

/-!
# External commands

Running an external command in the working directory of the session. Its standard output is the
answer; what it writes to standard error goes to a sink, which is the log unless another is given;
and a command that cannot be started or that ends with a status other than zero fails.
-/

namespace ShellLisp

/-- A command that failed: why, with which status when it was started, and its standard error. -/
structure CommandFailure where
  reason : String
  status : Option Int
  errors : String

namespace Command

def notStarted (command reason : String) : CommandFailure :=
  ⟨"Failed to run " ++ command ++ ": " ++ reason, none, ""⟩

/-- A command that ended with a status other than zero. -/
def exited (command : String) (status : Int) (errors : String) : CommandFailure :=
  ⟨command ++ " exited with status " ++ toString status, some status, errors⟩

def answerRecorded (outputs : List (String × String)) (failures : List (String × Int))
    (command : String) : Except CommandFailure String :=
  match failures.lookup command with
  | some status => .error (exited command status "")
  | none => .ok ((outputs.lookup command).getD "")

def note (command : String) (arguments : List String) (directory : Path) : String :=
  "exec " ++ command ++ " [" ++ ", ".intercalate (arguments.map Text.literal) ++ "] (cwd=" ++
    directory.text ++ ")"

def textOf (bytes : List UInt8) : Except Fault String := do
  let text ← Text.decode bytes
  return String.ofList (Text.unifyNewlines text)

def launch (sink : String → Eval Unit) (command : String) (arguments : List String)
    (program : Process.Program) : Eval (Except CommandFailure String) := do
  let session ← get
  let (files, result) := program session.home command session.files session.directory arguments
  set { session with files }
  let output ← Eval.lift (textOf result.output)
  let errors ← Eval.lift (textOf result.errors)
  if !errors.isEmpty then sink errors
  if result.status = 0 then return .ok output
  else return .error (exited command result.status errors)

def execute (sink : String → Eval Unit) (command : String) (arguments : List String) :
    Eval (Except CommandFailure String) := do
  let session ← get
  match session.shell with
  | .recorded outputs failures =>
      Eval.emit (.ran command arguments session.directory)
      return answerRecorded outputs failures command
  | .launching programs =>
      Eval.log .debug "lish.shell" (note command arguments session.directory)
      if (command :: arguments).any fun text => text.toList.contains '\x00' then
        Eval.fault .embeddedNull
      match programs session.files session.directory command with
      | .error problem => return .error (notStarted command problem.message)
      | .ok program => launch sink command arguments program

/-- Logs what a command wrote to standard error, without the newlines at its end. -/
def logErrors (text : String) : Eval Unit :=
  Eval.log .warning "lish.shell" (String.ofList (Text.trimEnd (· == '\n') text.toList))

end Command

end ShellLisp
