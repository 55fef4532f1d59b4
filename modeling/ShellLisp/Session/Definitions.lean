import ShellLisp.Library.Function
import ShellLisp.Session

/-!
# Definitions of a session

The module scope of a session and what an interactive session puts there: its commands, and each
result under a numbered name. Clearing a session gives it a new module scope. The main statement is
that a cleared session has no definitions.
-/

namespace ShellLisp.Session

def define (session : Session) (name : String) (value : Value) : Session :=
  { session with store := session.store.define session.module name value }

/-- The names of the module scope with their values, in the order of definition. -/
def moduleBindings (session : Session) : Bindings Value :=
  session.store.scopes.bindings session.module

/-- A session with a new module scope; the library stays as it is. -/
def clear (session : Session) : Session :=
  let scopes := session.store.scopes
  { session with
    store := { session.store with scopes := scopes.pushModule (some session.core) }
    module := scopes.next }

def defineLibrary (session : Session) (name : String) (function : LibraryFunction) : Session :=
  let (value, store) := session.store.newLibrary ⟨function, .string name⟩
  define { session with store } name value

/-- A session with the commands of an interactive session in its module scope. -/
def installCommands (session : Session) : Session :=
  sessionCommands.foldl (fun found entry => found.defineLibrary entry.1 (.session entry.2)) session

def resultPrefix : String := "result"

def resultName (index : Nat) : String := resultPrefix ++ toString index

/-- A session without the bindings of its results, which are numbered from zero again. -/
def clearResults (session : Session) : Session :=
  let names := (List.range session.results).map resultName
  let erase (bindings : Bindings Value) : Bindings Value :=
    names.foldl (fun found name => Bindings.erase name found) bindings
  { session with
    store := { session.store with scopes := session.store.scopes.modify session.module erase }
    results := 0 }

def clearDefinitions (session : Session) : Session :=
  installCommands { session.clear with results := 0 }

/-- The defined names, without those of results and session commands. -/
def definitions (session : Session) : List String :=
  (session.moduleBindings.map (·.1)).filter fun name =>
    !resultPrefix.toList.isPrefixOf name.toList && (List.lookup name sessionCommands).isNone

theorem moduleBindings_clear (session : Session) : session.clear.moduleBindings = [] := by
  simp [clear, moduleBindings, Scopes.bindings, Scopes.get?, Scopes.pushModule, Scopes.push,
    Scopes.next]

end ShellLisp.Session
