import ShellLisp.Problem
import ShellLisp.Process.Basic
import ShellLisp.Store

/-!
# Sessions

Everything that evaluations share and change: the store of values with its scopes, the files, the
working directory, what an interactive session keeps, and the events that the outside can observe,
in their order.
-/

namespace ShellLisp

inductive Severity
  | debug
  | info
  | warning
  | error
  | critical
  deriving DecidableEq, Repr

namespace Severity

def name : Severity → String
  | .debug => "DEBUG"
  | .info => "INFO"
  | .warning => "WARNING"
  | .error => "ERROR"
  | .critical => "CRITICAL"

def rank : Severity → Nat
  | .debug => 10
  | .info => 20
  | .warning => 30
  | .error => 40
  | .critical => 50

end Severity

/-- A record of the log: how grave it is, which part wrote it, and its text. -/
structure LogRecord where
  severity : Severity
  source : String
  text : String
  deriving DecidableEq, Repr

inductive Event
  | output (text : String)
  | diagnostic (text : String)
  | logged (record : LogRecord)
  | prompt (text : String)
  | reply (line : String)
  /-- A value that was given to the host. -/
  | ticked (value : Value)
  | ran (command : String) (arguments : List String) (directory : Path)

inductive Shell
  /-- Commands are only recorded; some have an output or a failing status. -/
  | recorded (outputs : List (String × String)) (failures : List (String × Int))
  /-- Commands run programs of a machine on the files of the session. -/
  | launching (programs : Process.Programs)

structure Session where
  store : Store
  core : Nat
  module : Nat
  files : FileTree
  directory : Path
  home : Path
  shell : Shell
  events : Array Event
  /-- How many results an interactive session has named. -/
  results : Nat
  /-- Whether an interactive session goes on. -/
  running : Bool

namespace Session

def record (session : Session) (event : Event) : Session :=
  { session with events := session.events.push event }

def homePath (session : Session) : WrittenPath := .ofPath session.home

def resolve (session : Session) (text : String) : Except Fault Path := do
  let written ← (WrittenPath.ofText text).expandHome session.homePath
  if text.toList.contains '\x00' then throw .embeddedNull
  return written.resolve session.directory

end Session

/-- An evaluation: it changes the session, and yields a value or fails. What it changed before a
failure stays changed. -/
abbrev Eval := ExceptT Failure (StateM Session)

namespace Eval
variable {α : Type}

def problem (place : Location) (cause : Cause) : Eval α := throw (.at place cause)

def fault (fault : Fault) : Eval α := throw (.fault fault)

def lift : Except Fault α → Eval α
  | .ok value => pure value
  | .error found => fault found

def read (query : Store → Except Failure α) : Eval α := do
  match query (← get).store with
  | .ok value => return value
  | .error failure => throw failure

def ask (query : Store → α) : Eval α := do return query (← get).store

def change (step : Store → α × Store) : Eval α :=
  modifyGet fun session =>
    let (value, store) := step session.store
    (value, { session with store })

def update (step : Store → Store) : Eval Unit :=
  modify fun session => { session with store := step session.store }

def emit (event : Event) : Eval Unit := modify fun session => session.record event

def log (severity : Severity) (source text : String) : Eval Unit :=
  emit (.logged ⟨severity, source, text⟩)

def newArray (items : Array Value) : Eval Value := change fun store => store.newArray items

def newTexts (texts : List String) : Eval Value := newArray (texts.map Value.string).toArray

def newMap (entries : Entries) : Eval Value := change fun store => store.newMap entries

def newSequence (label : String) (state : SequenceState) : Eval Value :=
  change fun store => store.newSequence label state

def newScope (parent : Nat) : Eval Nat := change fun store => store.newScope parent

def define (scope : Nat) (name : String) (value : Value) : Eval Unit :=
  update fun store => store.define scope name value

/-- The value of a name in a scope; null for a name that nothing binds. -/
def lookup (scope : Nat) (name : String) : Eval Value :=
  ask fun store => (store.scopes.lookup? scope name).getD .null

def runOn (session : Session) (action : Eval α) : Except Failure α × Session :=
  (action.run).run session

/-- Turns the faults of an action that a program can recover from into problems at a place. -/
def recovering (place : Location) (action : Eval α) : Eval α :=
  tryCatch action fun failure =>
    match failure with
    | .fault found =>
        if found.kind.isRecoverable then problem place (.recovered found) else throw failure
    | other => throw other

end Eval

end ShellLisp
