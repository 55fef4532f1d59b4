import ShellLisp.Process.Format
import ShellLisp.Process.ShellState

/-!
# Commands of a shell

The commands that a shell runs itself, because they look at its state or change it, and those that
it runs itself for speed.
-/

namespace ShellLisp.Process.ShellState

/-- The names of signals, their numbers, and what a shell says of a process that one ended. -/
def signals : List (String × Int × String) := [
  ("HUP", 1, "Hangup"), ("INT", 2, ""), ("QUIT", 3, "Quit"), ("ILL", 4, "Illegal instruction"),
  ("TRAP", 5, "Trace/breakpoint trap"), ("ABRT", 6, "Aborted"), ("BUS", 7, "Bus error"),
  ("FPE", 8, "Floating point exception"), ("KILL", 9, "Killed"),
  ("USR1", 10, "User defined signal 1"), ("SEGV", 11, "Segmentation fault"),
  ("USR2", 12, "User defined signal 2"), ("PIPE", 13, ""), ("ALRM", 14, "Alarm clock"),
  ("TERM", 15, "Terminated")]

def signal? (text : String) : Option Int :=
  ((signals.lookup text).map Prod.fst).or
    ((text.toNat?.map Int.ofNat).filter fun n => 0 < n && n ≤ 64)

/-- The signal that a command sends to its own shell, if it sends one. -/
def signalSent? : List String → Option Int
  | ["-s", name, target] => if target = processNumber then signal? name else none
  | [flag, target] =>
      if target = processNumber && flag.toList.head? == some '-' then
        signal? (String.ofList flag.toList.tail)
      else none
  | [target] => if target = processNumber then some 15 else none
  | _ => none

/-- The text of an echo: escapes are replaced, and a leading dash and n keeps the line open. -/
def echoed (arguments : List String) : List UInt8 :=
  let isOpen := arguments.head? == some "-n"
  let text := " ".intercalate (if isOpen then arguments.tail else arguments)
  let (bytes, ended) := Format.expandEscapes (Format.inShell "") (text.length + 1) text.toList
  if isOpen || ended then bytes else bytes ++ [10]

def entry? (state : ShellState) (path : String) : Option FileEntry :=
  (state.files.follow state.directory path).toOption.bind state.files.find?

/-- Whether a test holds; none when it cannot be read. -/
def tests (state : ShellState) : List String → Option Bool
  | [] => some false
  | [text] => some (!text.isEmpty)
  | ["!", text] => some text.isEmpty
  | ["-n", text] => some (!text.isEmpty)
  | ["-z", text] => some text.isEmpty
  | ["-e", path] => some (state.entry? path).isSome
  | ["-d", path] => some (state.entry? path == some .directory)
  | ["-f", path] =>
      some (match state.entry? path with
        | some (.file _) => true
        | _ => false)
  | [left, "=", right] => some (left == right)
  | [left, "!=", right] => some (left != right)
  | [left, operator, right] => do
      let m ← left.toInt?
      let n ← right.toInt?
      match operator with
      | "-eq" => some (m == n)
      | "-ne" => some (m != n)
      | "-lt" => some (decide (m < n))
      | "-le" => some (decide (m ≤ n))
      | "-gt" => some (decide (m > n))
      | "-ge" => some (decide (m ≥ n))
      | _ => none
  | _ => none

/-- The state in another directory, or why it cannot be entered. -/
def changeDirectory (state : ShellState) (path : String) : Option ShellState :=
  let directory := (state.files.follow state.directory path).toOption.getD state.directory
  if state.entry? path == some .directory then
    some (({ state with directory }).assign "PWD" directory.text)
  else none

def exitStatus? (text : String) : Option Int :=
  if text.toList.all Char.isDigit then text.toNat?.map fun n => Int.ofNat (n % 256) else none

/-- Runs a command that the shell knows itself, if it does. -/
def builtin? (state : ShellState) (line : Nat) (name : String) (arguments : List String) :
    Option (ShellState × Result) :=
  let complaint (status : Int) (message : String) : ShellState × Result :=
    (state, .complaint status (state.speaker line ++ message ++ "\n"))
  let answer (holds : Option Bool) : ShellState × Result :=
    match holds with
    | some true => (state, .silent 0)
    | some false => (state, .silent 1)
    | none => complaint 2 (name ++ ": " ++ arguments.headD "" ++ ": unexpected operator")
  match name with
  | ":" | "true" => some (state, .silent 0)
  | "false" => some (state, .silent 1)
  | "echo" => some (state, { Result.silent 0 with output := echoed arguments })
  | "printf" => some (state, Format.run (Format.inShell (state.speaker line)) arguments)
  | "pwd" => some (state, { Result.silent 0 with output := bytesOf (state.directory.text ++ "\n") })
  | "exit" =>
      match arguments with
      | [] => some ({ state with ending := some state.status }, .silent state.status)
      | text :: _ =>
          match exitStatus? text with
          | some status => some ({ state with ending := some status }, .silent status)
          | none =>
              some ({ state with ending := some 2 },
                (complaint 2 ("exit: Illegal number: " ++ text)).2)
  | "cd" =>
      let path := arguments.headD (state.parameter "HOME")
      match state.changeDirectory path with
      | some moved => some (moved, .silent 0)
      | none => some (complaint 2 ("cd: can't cd to " ++ path))
  | "kill" =>
      match signalSent? arguments with
      | some signal => some ({ state with ending := some (-signal) }, .silent (-signal))
      | none => some (complaint 1 "kill: No such process")
  | "test" => some (answer (state.tests arguments))
  | "[" =>
      if arguments.getLast? == some "]" then some (answer (state.tests arguments.dropLast))
      else some (complaint 2 "[: missing ]")
  | _ => none

end ShellLisp.Process.ShellState
