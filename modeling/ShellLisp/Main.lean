import ShellLisp.CommandLine

/-!
# The program

Runs the command line on the arguments, the environment, the standard input and the files below the
working directory, together with the prelude and the history. What a run wrote is printed, and files
that it changed are written back.
-/

namespace ShellLisp.Program

/-- The variables of the environment that a run looks at. -/
def variableNames : List String :=
  ["LISH_PRELUDE_PATH", "LISH_HISTORY_FILE", "LISH_LOG_LEVEL", "LISH_PPRINT_OPTIONS"]

def readEnvironment : IO Environment :=
  variableNames.filterMapM fun name => do
    return (← IO.getEnv name).map fun value => (name, value)

def partsOf (text : String) : Path := (WrittenPath.ofText text).parts

/-- Files with what is found under a path, and below it as deep as the bound says. -/
def readBelow : Nat → FileTree → Path → IO FileTree
  | 0, files, _ => return files
  | depth + 1, files, path => do
      let here := (← IO.currentDir) / path.text
      if ← here.isDir then
        let names := (← here.readDir).toList.map fun entry => entry.fileName
        names.foldlM (fun found name => readBelow depth found (path ++ [name]))
          (files.plant path .directory)
      else
        try return files.plant path (.file (← IO.FS.readBinFile here).toList)
        catch _ => return files

def directoryDepth : Nat := 8

def readSurroundings : IO Surroundings := do
  let environment ← readEnvironment
  let directory := partsOf (← IO.currentDir).toString
  let home := partsOf ((← IO.getEnv "HOME").getD "/")
  let files ← readBelow directoryDepth (.empty) directory
  let settings := [Settings.preludePath environment home, Settings.historyPath environment home]
  let paths := settings.filterMap fun setting =>
    setting.toOption.map fun written => written.resolve directory
  let files ← paths.foldlM (fun found path => readBelow 1 found path) files
  return { environment, files, directory, home, input := ← (← IO.getStdin).readToEnd }

def failureText : Failure → String
  | .problem problem => problem.text ++ "\n"
  | .fault fault => fault.kind.name ++ ": " ++ fault.text ++ "\n"
  | .tooDeep => "maximum recursion depth exceeded\n"

/-- Makes the files of the system those that a run left behind, where it changed them. -/
def writeBack (old new : FileTree) : IO Unit := do
  let here ← IO.currentDir
  for (path, entry) in new.entries do
    if old.find? path ≠ some entry then
      match entry with
      | .file bytes => IO.FS.writeBinFile (here / path.text) ⟨bytes.toArray⟩
      | .directory => IO.FS.createDirAll (here / path.text)
  for (path, entry) in old.entries do
    if !new.holds path && entry != .directory then IO.FS.removeFile (here / path.text)

end ShellLisp.Program

def main (arguments : List String) : IO UInt32 := do
  let around ← ShellLisp.Program.readSurroundings
  let done := ShellLisp.CommandLine.run around arguments
  ShellLisp.Program.writeBack around.files done.files
  IO.print done.output
  IO.eprint done.errors
  match done.status with
  | .ok status => return UInt32.ofNat status
  | .error failure =>
      IO.eprint (ShellLisp.Program.failureText failure)
      return 1
