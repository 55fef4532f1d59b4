import ShellLisp.FileTree
import ShellLisp.Text.Search
import ShellLisp.Text.Utf8

/-!
# Programs and processes

What a program is to those who start it, what a process leaves behind, and the commands that only copy
their input or say how they end. Which programs there are is left open here.
-/

namespace ShellLisp.Process

/-- What a process leaves behind. A negative status is the signal that ended it. -/
structure Result where
  status : Int
  output : List UInt8
  errors : List UInt8

/-- A program: what it does to the files, and what it leaves behind, when it is started with a home
under a name in a directory with arguments. -/
abbrev Program :=
  (home : Path) → (called : String) → (files : FileTree) → (directory : Path) →
    (arguments : List String) → FileTree × Result

inductive LaunchProblem
  | notFound
  | notDirectory
  | notPermitted
  deriving DecidableEq, Repr

def LaunchProblem.message : LaunchProblem → String
  | .notFound => "No such file or directory"
  | .notDirectory => "Not a directory"
  | .notPermitted => "Permission denied"

/-- The programs of a machine: what a name launches in a directory, or why it launches nothing. -/
abbrev Programs :=
  (files : FileTree) → (directory : Path) → (name : String) → Except LaunchProblem Program

def bytesOf (text : String) : List UInt8 := Text.encode text.toList

def Result.silent (status : Int) : Result := ⟨status, [], []⟩

def Result.complaint (status : Int) (message : String) : Result := ⟨status, [], bytesOf message⟩

def readingProblem (fault : Fault) : String :=
  match fault.kind with
  | .isDirectory => "Is a directory"
  | .notDirectory => "Not a directory"
  | .missingFile => "No such file or directory"
  | _ => "File name too long"

def readWritten (files : FileTree) (directory : Path) (text : String) :
    Except Fault (List UInt8) := do
  files.read (← files.follow directory text) text

def needsQuotes (c : Char) : Bool :=
  c.toNat < 32 || " !\"$&'()*;<=>?[\\^\x60|".toList.contains c

/-- A file name in a message: between quotes where a shell would not take it as it is. -/
def quotedName (name : String) : String :=
  let text := name.toList
  let isPlain := !text.isEmpty && !text.any needsQuotes && text.head? != some '#' &&
    text.head? != some '~'
  if isPlain then name
  else if text.contains '\'' && !text.any (fun c => ['"', '$', '\\', '\x60'].contains c) then
    "\"" ++ name ++ "\""
  else "'" ++ String.ofList (Text.replace ['\''] ['\'', '\\', '\'', '\''] text) ++ "'"

/-- The bytes of the files named one after the other; a dash stands for the input, which is also
what is copied when no file is named. Messages start with the name of the command. -/
def concatenate (command : String) (files : FileTree) (directory : Path) (input : List UInt8)
    (names : List String) : Result :=
  (if names.isEmpty then ["-"] else names).foldl (fun found name =>
    if name = "-" then { found with output := found.output ++ input }
    else if name = "/dev/null" then found
    else
      match readWritten files directory name with
      | .ok bytes => { found with output := found.output ++ bytes }
      | .error fault =>
          let message := command ++ ": " ++ quotedName name ++ ": " ++ readingProblem fault ++ "\n"
          { found with status := 1, errors := found.errors ++ bytesOf message })
    (.silent 0)

end ShellLisp.Process
