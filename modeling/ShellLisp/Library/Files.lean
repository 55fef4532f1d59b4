import ShellLisp.Library.Arguments
import ShellLisp.Library.Function
import ShellLisp.Text.Lines
import ShellLisp.Text.Utf8

/-!
# Functions on files

Reading and writing text files and directories. A path is followed from the working directory of the
session. Files hold UTF-8; every kind of line end reads as a newline, and text is written as it is.
-/

namespace ShellLisp

namespace Fault

def noSuchDirectory (path : String) : Fault :=
  ⟨.missingFile, "No such directory " ++ path ++ " exists"⟩

def fileAsDirectory (path : String) : Fault :=
  ⟨.notDirectory, "Path " ++ path ++ " is a file, not a directory"⟩

end Fault

/-- The text of a file with all line ends unified. -/
def FileTree.readText (files : FileTree) (path : Path) (shown : String) : Except Fault String := do
  let text ← Text.decode (← files.read path shown)
  return String.ofList (Text.unifyNewlines text)

/-- What is found under a path, when its names are not too long. -/
def FileTree.look (files : FileTree) (path : Path) : Except Fault (Option FileEntry) :=
  if path.isNameable then .ok (files.find? path) else .error (nameTooLong path.text)

namespace Files
open Arguments

def resolve (text : String) : Eval Path := do Eval.lift ((← get).resolve text)

def onlyPath (callee : String) (place : Location) (arguments : List Value) : Eval Path := do
  resolve (← nonEmptyString place (← one callee place arguments))

/-- The resolved path that the first of two arguments means, and the second, a string. -/
def pathAndText (callee : String) (place : Location) (arguments : List Value) :
    Eval (Path × List UInt8) := do
  let (path, text) ← two callee place arguments
  let path ← resolve (← nonEmptyString place path)
  return (path, Text.encode (← string place text).toList)

def look (path : Path) : Eval (Option FileEntry) := do Eval.lift ((← get).files.look path)

def change (step : FileTree → Except Fault FileTree) : Eval Unit := do
  let files ← Eval.lift (step (← get).files)
  modify fun session => { session with files }

/-- The names in a directory, sorted; the working directory unless another is given. -/
def list (place : Location) (arguments : List Value) : Eval Value := do
  let path ←
    match arguments with
    | [] => pure (← get).directory
    | [path] => resolve (← nonEmptyString place path)
    | _ => Eval.problem place (.takesBetween "list" 0 1 arguments.length)
  Eval.newTexts (← Eval.lift ((← get).files.list path path.text))

/-- Removes a file, or a directory with everything in it, and says whether anything was there. -/
def remove (place : Location) (arguments : List Value) : Eval Value := do
  let path ← onlyPath "remove" place arguments
  match ← look path with
  | none => return .bool false
  | some _ =>
      modify fun session => { session with files := session.files.remove path }
      return .bool true

def enter (text : String) : Eval Value := do
  let path ← resolve text
  match ← look path with
  | none => Eval.fault (.noSuchDirectory path.text)
  | some (.file _) => Eval.fault (.fileAsDirectory path.text)
  | some .directory =>
      modify fun session => { session with directory := path }
      return .string path.text

def call (place : Location) (arguments : List Value) : FileFunction → Eval Value
  | .read => do
      let path ← onlyPath "read" place arguments
      return .string (← Eval.lift ((← get).files.readText path path.text))
  | .write => do
      let (path, bytes) ← pathAndText "write" place arguments
      change fun files => files.write path path.text bytes
      return .string path.text
  | .append => do
      let (path, bytes) ← pathAndText "append" place arguments
      change fun files => files.append path path.text bytes
      return .string path.text
  | .exists => do return .bool (← look (← onlyPath "exists" place arguments)).isSome
  | .isDirectory => do
      return .bool ((← look (← onlyPath "isDirectory" place arguments)) == some .directory)
  | .list => list place arguments
  | .remove => remove place arguments

end Files

end ShellLisp
