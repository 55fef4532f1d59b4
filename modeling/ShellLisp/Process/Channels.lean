import ShellLisp.Process.ShellState

/-!
# Channels

Where the input of a command comes from and where its output and its errors go: redirections are
opened from left to right, each seeing the ones before it.
-/

namespace ShellLisp.Process

inductive Target
  | output
  | errors
  | file (path : Path) (shown : String)
  | nowhere
  deriving DecidableEq, Repr

structure Channels where
  input : List UInt8
  output : Target
  errors : Target

namespace Channels

def lead (channels : Channels) (channel : Nat) (target : Target) : Channels :=
  if channel = 2 then { channels with errors := target } else { channels with output := target }

def target (channels : Channels) (channel : Nat) : Target :=
  if channel = 2 then channels.errors else channels.output

end Channels

namespace ShellState

/-- Why a file cannot be opened, in the words of the shell. -/
def openingProblem (fault : Fault) (missing : String) : String :=
  match fault.kind with
  | .missingFile | .notDirectory => missing
  | .isDirectory => "Is a directory"
  | _ => "File name too long"

/-- The files with one that is there to be written, and its path. -/
def openForWriting (state : ShellState) (appends : Bool) (text : String) :
    Except Fault (FileTree × Path) := do
  let path ← state.files.follow state.directory text
  let files ← state.files.modify path text fun bytes => if appends then bytes else []
  return (files, path)

/-- Opens a redirection, or says why it cannot be opened. -/
def openRedirection (state : ShellState) (channels : Channels) :
    Redirection → Except String (FileTree × Channels)
  | .toChannel channel target =>
      .ok (state.files, channels.lead channel (channels.target target))
  | .fromFile word =>
      let shown := state.expandWhole word
      if shown = "/dev/null" then .ok (state.files, { channels with input := [] })
      else
        match readWritten state.files state.directory shown with
        | .ok bytes => .ok (state.files, { channels with input := bytes })
        | .error fault =>
            match fault.kind with
            | .isDirectory => .ok (state.files, { channels with input := [] })
            | _ => .error ("cannot open " ++ shown ++ ": " ++ openingProblem fault "No such file")
  | .toFile channel appends word =>
      let shown := state.expandWhole word
      if shown = "/dev/null" then .ok (state.files, channels.lead channel .nowhere)
      else
        match state.openForWriting appends shown with
        | .ok (files, path) => .ok (files, channels.lead channel (.file path shown))
        | .error fault =>
            let reason := openingProblem fault "Directory nonexistent"
            .error ("cannot create " ++ shown ++ ": " ++ reason)

def openAll (state : ShellState) (channels : Channels) :
    List Redirection → Except String (FileTree × Channels)
  | [] => .ok (state.files, channels)
  | first :: rest => do
      let (files, opened) ← state.openRedirection channels first
      openAll { state with files } opened rest

def deliver (bytes : List UInt8) (found : FileTree × Result) : Target → FileTree × Result
  | .output => (found.1, { found.2 with output := found.2.output ++ bytes })
  | .errors => (found.1, { found.2 with errors := found.2.errors ++ bytes })
  | .nowhere => found
  | .file path shown => ((found.1.append path shown bytes).toOption.getD found.1, found.2)

/-- What a command leaves behind once its channels are followed. -/
def route (files : FileTree) (channels : Channels) (result : Result) : FileTree × Result :=
  deliver result.errors (deliver result.output (files, .silent result.status) channels.output)
    channels.errors

end ShellState

end ShellLisp.Process
