import ShellLisp.Evaluation
import ShellLisp.Session.Definitions

/-!
# Starting and using a session

A session starts with the library in its core scope and an empty module scope inside it. Source text
and files are evaluated in the module scope, and definitions stay for the next evaluation.
-/

namespace ShellLisp.Session

def librariesUnder (shownPrefix : String) (store : Store) :
    List (String × LibraryFunction) → Bindings Value × Store
  | [] => ([], store)
  | (name, function) :: rest =>
      let (value, after) := store.newLibrary ⟨function, .string (shownPrefix ++ name)⟩
      let (others, last) := librariesUnder shownPrefix after rest
      ((name, value) :: others, last)

def formsIn (store : Store) : List (String × SpecialForm) → Bindings Value × Store
  | [] => ([], store)
  | (name, form) :: rest =>
      let (value, after) := store.newForm ⟨form, .string name⟩
      let (others, last) := formsIn after rest
      ((name, value) :: others, last)

def mapsIn (store : Store) :
    List (String × List (String × LibraryFunction)) → Bindings Value × Store
  | [] => ([], store)
  | (name, members) :: rest =>
      let (functions, after) := librariesUnder (name ++ ".") store members
      let entries := functions.map fun entry => (Value.string entry.1, entry.2)
      let (value, after) := after.newMap entries.toArray
      let (others, last) := mapsIn after rest
      ((name, value) :: others, last)

def libraryStore : Store :=
  let empty := { Store.empty with scopes := Scopes.empty.push none none }
  let (forms, store) := formsIn empty specialForms
  let (functions, store) := librariesUnder "" store coreFunctions
  let (maps, store) := mapsIn store libraryMaps
  { store with scopes := store.scopes.defineAll 0 (forms ++ functions ++ maps) }

def start (files : FileTree) (directory home : Path) (shell : Shell) : Session :=
  { store := { libraryStore with scopes := libraryStore.scopes.pushModule (some 0) }
    core := 0
    module := libraryStore.scopes.next
    files, directory, home, shell
    events := #[]
    results := 0
    running := false }

def evaluateIn (session : Session) (scope : Nat) (source : String) :
    Except Failure Value × Session :=
  Eval.runOn session (Engine.default.evaluateText source scope)

def evaluate (session : Session) (source : String) : Except Failure Value × Session :=
  session.evaluateIn session.module source

def evaluateInCore (session : Session) (source : String) : Except Failure Value × Session :=
  session.evaluateIn session.core source

def evaluateFile (session : Session) (path : Path) : Except Failure Value × Session :=
  match session.files.readText path path.text with
  | .ok source => session.evaluate source
  | .error fault => (.error (.fault fault), session)

/-- A session in which a prelude was evaluated, if there is one. -/
def withPrelude (session : Session) (source : String) : Except Failure Session :=
  if source.isEmpty then .ok session
  else
    match session.evaluate source with
    | (.ok _, after) => .ok after
    | (.error failure, _) => .error failure

end ShellLisp.Session
