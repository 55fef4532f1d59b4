import ShellLisp.Evaluation
import ShellLisp.Proofs.Changes.Basic
import ShellLisp.Proofs.Confinement.Actions

/-!
# Actions that change sessions step by step

Actions put together of such that make only the changes of single steps do the same, and so do the
actions on a session of which all evaluations are made. Some scopes may be known to be local: names
may be bound in them, whatever is reserved.
-/

namespace ShellLisp
open Session

/-- An action that takes any session, in which some scopes are local, to another by single steps. -/
def Makes {α : Type} (reserved : Guarded) (locals : Nat → Prop) (action : Eval α) : Prop :=
  ∀ session : Session, session.Ready reserved → (∀ scope, locals scope → session.IsInner scope) →
    Changes reserved session (action.runOn session).2

variable {reserved : Guarded} {locals : Nat → Prop} {α β : Type}

namespace Makes

theorem changes {action : Eval α} {session : Session}
    (makes : Makes reserved (fun _ => False) action) (ready : session.Ready reserved) :
    Changes reserved session (action.runOn session).2 := makes session ready nofun

theorem step {action : Eval α}
    (changes : ∀ session : Session, session.Ready reserved →
      (∀ scope, locals scope → session.IsInner scope) →
      Change reserved session (action.runOn session).2) : Makes reserved locals action :=
  fun session ready areLocal => .single (changes session ready areLocal)

theorem pure (a : α) : Makes reserved locals (Pure.pure a : Eval α) := fun _ _ _ => .refl

theorem throw (failure : Failure) : Makes reserved locals (throw failure : Eval α) :=
  fun _ _ _ => .refl

theorem problem (place : Location) (cause : Cause) :
    Makes reserved locals (Eval.problem place cause : Eval α) := throw _

theorem fault (found : Fault) : Makes reserved locals (Eval.fault found : Eval α) := throw _

theorem bind {action : Eval α} {next : α → Eval β} (first : Makes reserved locals action)
    (then_ : ∀ a, Makes reserved locals (next a)) : Makes reserved locals (action >>= next) := by
  intro session ready areLocal
  have changes := first session ready areLocal
  rw [Eval.runOn_bind]
  cases outcome : action.runOn session with
  | mk found after =>
      rw [outcome] at changes
      obtain ⟨stays, keeps⟩ := ready.changes changes
      cases found with
      | ok a =>
          exact changes.trans (then_ a after stays fun scope member =>
            (areLocal scope member).keeps keeps)
      | error failure => exact changes

theorem tryCatch {action : Eval α} {handler : Failure → Eval α}
    (first : Makes reserved locals action)
    (handles : ∀ failure, Makes reserved locals (handler failure)) :
    Makes reserved locals (tryCatch action handler) := by
  intro session ready areLocal
  have changes := first session ready areLocal
  rw [Eval.runOn_tryCatch]
  cases outcome : action.runOn session with
  | mk found after =>
      rw [outcome] at changes
      obtain ⟨stays, keeps⟩ := ready.changes changes
      cases found with
      | ok a => exact changes
      | error failure =>
          exact changes.trans (handles failure after stays fun scope member =>
            (areLocal scope member).keeps keeps)

theorem get_bind {next : Session → Eval β}
    (then_ : ∀ session, Makes reserved locals (next session)) :
    Makes reserved locals (get >>= next) :=
  fun session ready areLocal => then_ session session ready areLocal

theorem ite {first second : Eval α} {condition : Prop} [Decidable condition]
    (whenTrue : Makes reserved locals first) (whenFalse : Makes reserved locals second) :
    Makes reserved locals (if condition then first else second) := by
  split
  · exact whenTrue
  · exact whenFalse

theorem guard {check : Eval PUnit} {rest : PUnit → Eval α} {condition : Prop}
    [Decidable condition] (checks : Makes reserved locals check)
    (goesOn : Makes reserved locals (rest ⟨⟩)) :
    Makes reserved locals (if condition then check >>= rest else rest ⟨⟩) :=
  ite (checks.bind fun _ => goesOn) goesOn

theorem lift (outcome : Except Fault α) : Makes reserved locals (Eval.lift outcome) := by
  cases outcome with
  | ok a => exact pure a
  | error found => exact fault found

theorem read (query : Store → Except Failure α) : Makes reserved locals (Eval.read query) := by
  refine get_bind fun session => ?_
  split
  · exact pure _
  · exact throw _

theorem ask (query : Store → α) : Makes reserved locals (Eval.ask query) :=
  get_bind fun _ => pure _

theorem update {change : Store → Store}
    (changes : ∀ store : Store, store.Change reserved (change store)) :
    Makes reserved locals (Eval.update change) :=
  step fun session _ _ => .store (changes session.store)

theorem change {change : Store → α × Store}
    (changes : ∀ store : Store, store.Change reserved (change store).2) :
    Makes reserved locals (Eval.change change) :=
  step fun session _ _ => .store (changes session.store)

theorem outside {change : Session → Session}
    (same : ∀ session, ∃ files directory events running,
      change session = { session with files, directory, events, running }) :
    Makes reserved locals (modify change : Eval PUnit) := by
  refine step fun session _ _ => ?_
  obtain ⟨files, directory, events, running, changed⟩ := same session
  exact cast (congrArg (Change reserved session) changed.symm)
    (.outside files directory events running)

theorem emit (event : Event) : Makes reserved locals (Eval.emit event) :=
  outside fun _ => ⟨_, _, _, _, rfl⟩

theorem log (severity : Severity) (source text : String) :
    Makes reserved locals (Eval.log severity source text) := emit _

theorem newArray (items : Array Value) : Makes reserved locals (Eval.newArray items) :=
  change fun _ => .newArray items

theorem newTexts (texts : List String) : Makes reserved locals (Eval.newTexts texts) := newArray _

theorem newMap (entries : Entries) : Makes reserved locals (Eval.newMap entries) :=
  change fun _ => .newMap entries

theorem newSequence (label : String) (state : SequenceState) :
    Makes reserved locals (Eval.newSequence label state) :=
  change fun _ => .newSequence label state

theorem newScope_bind {parent : Nat} {next : Nat → Eval β}
    (then_ : ∀ scope, Makes reserved (fun found => found = scope ∨ locals found) (next scope)) :
    Makes reserved locals (Eval.newScope parent >>= next) := by
  intro session ready areLocal
  obtain ⟨-, isNew, -⟩ := ready.linked.newScope parent
  have changed : Change reserved session { session with store := (session.store.newScope parent).2 } :=
    .newScope parent
  obtain ⟨stays, keeps⟩ := ready.changes (.single changed)
  rw [Eval.runOn_bind]
  refine Relation.ReflTransGen.head changed (then_ _ _ stays ?_)
  rintro scope (rfl | member)
  · exact isNew
  · exact (areLocal scope member).keeps keeps

theorem bindLocal {scope : Nat} (member : locals scope) (name : String) (value : Value) :
    Makes reserved locals (Eval.define scope name value) :=
  step fun _ _ areLocal => .bindLocal (areLocal scope member).apart name value

/-- Printing finishes at most a sequence, and a guarded range only when all its elements were pulled. -/
theorem print (value : Value) : Makes reserved locals (Eval.print value) := by
  intro session _ _
  cases used : session.store.usedUp? value with
  | none =>
      rw [Eval.runOn_print_none used]
      exact .refl
  | some found =>
      obtain ⟨ref, text⟩ := found
      obtain ⟨sequence, uses⟩ := Store.exists_usesUp used
      rw [Eval.runOn_print_some used]
      refine .single (.store (.modifySequence fun _ found same => ?_))
      rw [uses.there] at same
      cases same
      exact ⟨rfl, uses.gives⟩

theorem recovering {action : Eval α} (place : Location) (makes : Makes reserved locals action) :
    Makes reserved locals (Eval.recovering place action) := by
  refine makes.tryCatch fun failure => ?_
  cases failure with
  | fault found => exact ite (problem _ _) (throw _)
  | problem found => exact throw _
  | tooDeep => exact throw _

theorem boundingDepth {action : Eval α} (place : Option Location)
    (makes : Makes reserved locals action) :
    Makes reserved locals (Eval.boundingDepth place action) := by
  refine makes.tryCatch fun failure => ?_
  cases failure <;> exact throw _

theorem mapM {items : List β} {action : β → Eval α}
    (each : ∀ item, Makes reserved locals (action item)) :
    Makes reserved locals (items.mapM action) := by
  induction items with
  | nil => exact pure []
  | cons first rest ih =>
      rw [List.mapM_cons]
      exact (each first).bind fun _ => ih.bind fun _ => pure _

theorem forM {items : List β} {action : β → Eval Unit}
    (each : ∀ item, Makes reserved locals (action item)) :
    Makes reserved locals (items.forM action) := by
  induction items with
  | nil => exact pure ()
  | cons first rest ih => exact (each first).bind fun _ => ih

theorem forIn {items : List β} {body : β → PUnit → Eval (ForInStep PUnit)}
    (each : ∀ item, Makes reserved locals (body item ⟨⟩)) :
    Makes reserved locals (forIn items PUnit.unit body) := by
  induction items with
  | nil => exact pure _
  | cons first rest ih =>
      rw [List.forIn_cons]
      refine (each first).bind fun next => ?_
      cases next with
      | done => exact pure _
      | yield => exact ih

theorem foldlM {items : List β} {action : α → β → Eval α} {start : α}
    (each : ∀ a item, Makes reserved locals (action a item)) :
    Makes reserved locals (items.foldlM action start) := by
  induction items generalizing start with
  | nil => exact pure start
  | cons first rest ih =>
      rw [List.foldlM_cons]
      exact (each start first).bind fun _ => ih

end Makes

/-! ## External commands -/

namespace Command

theorem launch_makes {sink : String → Eval Unit}
    (sinks : ∀ text, Makes reserved locals (sink text)) (command : String)
    (arguments : List String) (program : Process.Program) :
    Makes reserved locals (launch sink command arguments program) := by
  intro session ready areLocal
  -- The files are set from the session that was read, so nothing else of it changes.
  let result := program session.home command session.files session.directory arguments
  have rest : Makes reserved locals (do
      let output ← Eval.lift (textOf result.2.output)
      let errors ← Eval.lift (textOf result.2.errors)
      if !errors.isEmpty then sink errors
      if result.2.status = 0 then return .ok output
      else return .error (exited command result.2.status errors) :
        Eval (Except CommandFailure String)) :=
    .bind (.lift _) fun _ => .bind (.lift _) fun errors =>
      .guard (sinks errors) (.ite (.pure _) (.pure _))
  have changed : Change reserved session { session with files := result.1 } :=
    .outside result.1 session.directory session.events session.running
  obtain ⟨stays, keeps⟩ := ready.changes (.single changed)
  exact .head changed (rest _ stays fun scope member => (areLocal scope member).keeps keeps)

theorem execute_makes {sink : String → Eval Unit}
    (sinks : ∀ text, Makes reserved locals (sink text)) (command : String)
    (arguments : List String) : Makes reserved locals (execute sink command arguments) := by
  refine .get_bind fun session => ?_
  split
  · exact .bind (.emit _) fun _ => .pure _
  · refine .bind (.log _ _ _) fun _ => ?_
    refine .guard (.fault _) ?_
    split
    · exact .pure _
    · exact launch_makes sinks command arguments _

end Command

end ShellLisp
