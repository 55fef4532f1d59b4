import ShellLisp.Evaluation.Interpret
import ShellLisp.Proofs.Confinement.Actions

/-!
# How actions fail

Results and actions that fail only in certain ways, and how such actions are put together. An
external command, for example, fails only because of what the arguments and the output say.
-/

namespace ShellLisp

variable {fails more : Failure → Prop} {α β : Type}

def FailsOnly (fails : Failure → Prop) (result : Except Failure α) : Prop :=
  ∀ failure, result = .error failure → fails failure

def RunsFailingOnly (fails : Failure → Prop) (action : Eval α) : Prop :=
  ∀ session, FailsOnly fails (action.runOn session).1

namespace FailsOnly

theorem ok (a : α) : FailsOnly fails (.ok a) := nofun

theorem error {failure : Failure} (allowed : fails failure) :
    FailsOnly fails (.error failure : Except Failure α) := by
  intro found same
  cases same
  exact allowed

theorem mono {result : Except Failure α} (only : FailsOnly fails result)
    (weaker : ∀ failure, fails failure → more failure) : FailsOnly more result :=
  fun failure failed => weaker failure (only failure failed)

theorem bind {result : Except Failure α} {next : α → Except Failure β}
    (first : FailsOnly fails result) (then_ : ∀ a, result = .ok a → FailsOnly fails (next a)) :
    FailsOnly fails (result >>= next) := by
  cases result with
  | ok a => exact then_ a rfl
  | error failure => exact error (first failure rfl)

theorem map {result : Except Failure α} (change : α → β) (only : FailsOnly fails result) :
    FailsOnly fails (result.map change) := by
  cases result with
  | ok a => exact ok (change a)
  | error failure => exact error (only failure rfl)

theorem ite {first second : Except Failure α} {condition : Prop} [Decidable condition]
    (whenTrue : FailsOnly fails first) (whenFalse : FailsOnly fails second) :
    FailsOnly fails (if condition then first else second) := by
  split
  · exact whenTrue
  · exact whenFalse

theorem lift {outcome : Except Fault α}
    (only : ∀ fault, outcome = .error fault → fails (.fault fault)) :
    FailsOnly fails (Failure.lift outcome) := by
  cases outcome with
  | ok a => exact ok a
  | error fault => exact error (only fault rfl)

theorem mapM {items : List β} {action : β → Except Failure α}
    (each : ∀ item ∈ items, FailsOnly fails (action item)) : FailsOnly fails (items.mapM action) := by
  induction items with
  | nil => exact ok []
  | cons first rest ih =>
      rw [List.mapM_cons]
      refine (each first List.mem_cons_self).bind fun a _ => ?_
      refine (ih fun item member => each item (List.mem_cons_of_mem _ member)).bind fun found _ => ?_
      exact ok _

theorem foldlM {items : List β} {action : α → β → Except Failure α} {start : α}
    (each : ∀ a, ∀ item ∈ items, FailsOnly fails (action a item)) :
    FailsOnly fails (items.foldlM action start) := by
  induction items generalizing start with
  | nil => exact ok start
  | cons first rest ih =>
      rw [List.foldlM_cons]
      refine (each start first List.mem_cons_self).bind fun a _ => ?_
      exact ih fun b item member => each b item (List.mem_cons_of_mem _ member)

theorem name {show_ : Value → Except Failure String} {value : Value}
    (other : FailsOnly fails (show_ value)) :
    FailsOnly fails (match value with
      | .string text => .ok text
      | value => show_ value) := by
  split
  · exact .ok _
  · exact other

end FailsOnly

namespace RunsFailingOnly

theorem pure (a : α) : RunsFailingOnly fails (Pure.pure a : Eval α) := fun _ => .ok a

theorem throw {failure : Failure} (allowed : fails failure) :
    RunsFailingOnly fails (throw failure : Eval α) := fun _ => .error allowed

theorem mono {action : Eval α} (only : RunsFailingOnly fails action)
    (weaker : ∀ failure, fails failure → more failure) : RunsFailingOnly more action :=
  fun session => (only session).mono weaker

theorem bind {action : Eval α} {next : α → Eval β} (first : RunsFailingOnly fails action)
    (then_ : ∀ a, RunsFailingOnly fails (next a)) : RunsFailingOnly fails (action >>= next) := by
  intro session
  rw [Eval.runOn_bind]
  have failed := first session
  cases outcome : action.runOn session with
  | mk found after =>
      rw [outcome] at failed
      cases found with
      | ok a => exact then_ a after
      | error failure => exact .error (failed failure rfl)

theorem get_bind {next : Session → Eval β} (then_ : ∀ session, RunsFailingOnly fails (next session)) :
    RunsFailingOnly fails (get >>= next) := fun session => then_ session session

theorem tryCatch {action : Eval α} {handler : Failure → Eval α}
    (first : RunsFailingOnly more action)
    (handles : ∀ failure, more failure → RunsFailingOnly fails (handler failure)) :
    RunsFailingOnly fails (tryCatch action handler) := by
  intro session
  rw [Eval.runOn_tryCatch]
  have failed := first session
  cases outcome : action.runOn session with
  | mk found after =>
      rw [outcome] at failed
      cases found with
      | ok a => exact .ok a
      | error failure => exact handles failure (failed failure rfl) after

theorem modify (step : Session → Session) :
    RunsFailingOnly fails (modify step : Eval PUnit) := fun _ => .ok _

theorem change (step : Store → α × Store) : RunsFailingOnly fails (Eval.change step) :=
  fun _ => .ok _

theorem ask (query : Store → α) : RunsFailingOnly fails (Eval.ask query) := fun _ => .ok _

theorem read {query : Store → Except Failure α} (only : ∀ store, FailsOnly fails (query store)) :
    RunsFailingOnly fails (Eval.read query) := by
  refine get_bind fun session => ?_
  have failed := only session.store
  cases outcome : query session.store with
  | ok a => exact pure a
  | error failure => exact throw (failed failure outcome)

theorem lift {outcome : Except Fault α}
    (only : ∀ fault, outcome = .error fault → fails (.fault fault)) :
    RunsFailingOnly fails (Eval.lift outcome) := by
  cases outcome with
  | ok a => exact pure a
  | error fault => exact throw (only fault rfl)

theorem ite {first second : Eval α} {condition : Prop} [Decidable condition]
    (whenTrue : RunsFailingOnly fails first) (whenFalse : RunsFailingOnly fails second) :
    RunsFailingOnly fails (if condition then first else second) := by
  split
  · exact whenTrue
  · exact whenFalse

theorem guard {check : Eval PUnit} {rest : PUnit → Eval α} {condition : Prop}
    [Decidable condition] (checks : RunsFailingOnly fails check)
    (goesOn : RunsFailingOnly fails (rest ⟨⟩)) :
    RunsFailingOnly fails (if condition then check >>= rest else rest ⟨⟩) :=
  ite (checks.bind fun _ => goesOn) goesOn

theorem mapM {items : List β} {action : β → Eval α}
    (each : ∀ item, RunsFailingOnly fails (action item)) :
    RunsFailingOnly fails (items.mapM action) := by
  induction items with
  | nil => exact pure []
  | cons first rest ih =>
      rw [List.mapM_cons]
      exact (each first).bind fun _ => ih.bind fun _ => pure _

theorem forM {items : List β} {action : β → Eval Unit}
    (each : ∀ item, RunsFailingOnly fails (action item)) :
    RunsFailingOnly fails (items.forM action) := by
  induction items with
  | nil => exact pure ()
  | cons first rest ih => exact (each first).bind fun _ => ih

end RunsFailingOnly

/-! ## External commands -/

namespace Command

/-- The faults of a command: an argument that no process can be given, or an output that is no
text. -/
def ItsFault (failure : Failure) : Prop :=
  failure = .fault .embeddedNull ∨ ∃ error : Text.DecodeError, failure = .fault error.fault

theorem textOf_fails (bytes : List UInt8) (fault : Fault)
    (failed : textOf bytes = .error fault) : ItsFault (.fault fault) := by
  unfold textOf Text.decode at failed
  cases decoded : Text.decodeFrom 0 bytes with
  | ok text => rw [decoded] at failed; cases failed
  | error error =>
      rw [decoded] at failed
      cases failed
      exact .inr ⟨error, rfl⟩

theorem launch_fails {sink : String → Eval Unit}
    (sinks : ∀ text, RunsFailingOnly ItsFault (sink text)) (command : String)
    (arguments : List String) (program : Process.Program) :
    RunsFailingOnly ItsFault (launch sink command arguments program) := by
  refine .get_bind fun session => ?_
  refine .bind (.modify _) fun _ => ?_
  refine .bind (.lift (textOf_fails _)) fun output => ?_
  refine .bind (.lift (textOf_fails _)) fun errors => ?_
  exact .guard (sinks errors) (.ite (.pure _) (.pure _))

theorem execute_fails {sink : String → Eval Unit}
    (sinks : ∀ text, RunsFailingOnly ItsFault (sink text)) (command : String)
    (arguments : List String) : RunsFailingOnly ItsFault (execute sink command arguments) := by
  refine .get_bind fun session => ?_
  split
  · exact .bind (.modify _) fun _ => .pure _
  · refine .bind (.modify _) fun _ => ?_
    refine .guard (.throw (.inl rfl)) ?_
    split
    · exact .pure _
    · exact launch_fails sinks command arguments _

end Command

theorem Interpret.runCommand_fails (command : String) (arguments : List String)
    (place : Location) :
    RunsFailingOnly (fun failure => Command.ItsFault failure ∨ ∃ p, failure = .problem p)
      (runCommand command arguments place) := by
  have quiet : ∀ text, RunsFailingOnly Command.ItsFault (Command.logErrors text) :=
    fun _ => .modify _
  have executes := Command.execute_fails quiet command arguments
  refine .bind (.modify _) fun _ => .bind (executes.mono fun _ => .inl) fun outcome => ?_
  cases outcome with
  | ok output => exact .pure _
  | error failure => exact .throw (.inr ⟨_, rfl⟩)

end ShellLisp
