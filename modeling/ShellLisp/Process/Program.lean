import ShellLisp.Process.Run
import ShellLisp.Session

/-!
# Installed programs

A machine on which a session can be run: a shell and a few small programs that can be launched by name
in a directory, and why others cannot be. What is stated about evaluations holds for the programs of
any machine.
-/

namespace ShellLisp

namespace Process

inductive Tool
  | shell
  | printf
  | cat
  | succeed
  | fail
  deriving DecidableEq, Repr

namespace Tool

def known : List (String × Tool) :=
  [("sh", shell), ("printf", printf), ("cat", cat), ("true", succeed), ("false", fail)]

def directories : List String := ["/bin/", "/usr/bin/"]

def ofName? (name : String) : Option Tool :=
  known.findSome? fun (short, tool) =>
    if name = short || directories.any (fun above => name = above ++ short) then some tool
    else none

def program (tool : Tool) : Program := fun home called files directory arguments =>
  match tool with
  | .shell => runShell called shellDepth files directory [("HOME", home.text)] arguments []
  | .printf => (files, Format.run (Format.standAlone called) arguments)
  | .cat => (files, concatenate called files directory [] arguments)
  | .succeed => (files, .silent 0)
  | .fail => (files, .silent 1)

end Tool

/-- The program that a name launches in a directory. A file of the session is never a program. -/
def installed : Programs := fun files directory name =>
  match files.find? directory with
  | none => .error (if files.isBelowFile directory then .notDirectory else .notFound)
  | some (.file _) => .error .notDirectory
  | some .directory =>
      match Tool.ofName? name with
      | some tool => .ok tool.program
      | none =>
          if name = "" ∨ name = "." ∨ name = ".." then .error .notPermitted
          else if name.toList.contains '/' then
            match files.follow directory name with
            | .ok path => .error (if files.holds path then .notPermitted else .notFound)
            | .error fault =>
                .error (if fault.kind = .notDirectory then .notDirectory else .notFound)
          else .error .notFound

end Process

def Shell.system : Shell := .launching Process.installed

end ShellLisp
