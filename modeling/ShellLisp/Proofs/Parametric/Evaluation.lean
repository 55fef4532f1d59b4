import ShellLisp.Evaluation
import ShellLisp.Proofs.Parametric.Library

/-!
# Evaluation under any relation

The parts of the evaluator that scopes are hidden from, under any relation: lazy sequences, which
keep all that they need in their states, external commands, and calls of functions that no program
defined.
-/

namespace ShellLisp

variable {C : Congruence} {α : Type} {first second : Engine} (engines : first.Related C second)
variable {place place' : Location} (agree : C.placed place place')

namespace LazySequence

theorem stateOf_related (ref : Nat) : C.rel (stateOf ref) (stateOf ref) := C.ask fun _ _ => rfl

theorem setRunning_related (ref : Nat) (running : Bool) :
    C.rel (setRunning ref running) (setRunning ref running) :=
  C.update (.of_surroundings (fun _ _ => rfl) fun _ => rfl)

theorem finishing_related (ref : Nat) {action action' : Eval α} (related : C.rel action action') :
    C.rel (finishing ref action) (finishing ref action') := by
  have cleans : C.rel (setState ref .finished >>= fun _ => setRunning ref false)
      (setState ref .finished >>= fun _ => setRunning ref false) :=
    C.bind (C.setState ref _) fun _ => setRunning_related ref false
  have cleaned := C.cleaning related cleans fun _ => ⟨_, rfl⟩
  simp only [bind_assoc] at cleaned
  exact cleaned

section
variable (kept : ∀ place, C.placed place place)
include engines kept

theorem advanceFiltered_related (source : Nat) (callback : Value) (place : Location)
    (bound : Nat) :
    C.rel (advanceFiltered first source callback place bound)
      (advanceFiltered second source callback place bound) := by
  induction bound with
  | zero => exact C.fault _
  | succ bound ih =>
      refine C.bind (engines.advance source) fun found => ?_
      cases found with
      | none => exact C.pure _
      | some element =>
          refine C.bind (engines.apply (kept place) (.inl rfl)) fun verdict => ?_
          refine C.bind (C.truthy verdict) fun _ => ?_
          exact C.ite (fun _ => C.pure _) fun _ => ih

theorem advanceFlattened_related (source : Nat) (callback : Value) (place : Location)
    (bound : Nat) (inner : Cursor) :
    C.rel (advanceFlattened first source callback place bound inner)
      (advanceFlattened second source callback place bound inner) := by
  induction bound generalizing inner with
  | zero => exact C.fault _
  | succ bound ih =>
      refine C.bind (Engine.next_related engines inner) fun found => ?_
      cases found with
      | some step => exact C.pure _
      | none =>
          refine C.bind (engines.advance source) fun next => ?_
          cases next with
          | none => exact C.pure _
          | some element =>
              refine C.bind (engines.apply (kept place) (.inl rfl)) fun result => ?_
              refine C.bind (Arguments.iterable_related (kept place) result) fun _ => ?_
              exact C.bind (Engine.entries_related result) ih

theorem compute_related (state : SequenceState) :
    C.rel (compute first state) (compute second state) := by
  cases state with
  | stepping current stop step started => exact C.lift _
  | mapped source callback place =>
      refine C.bind (engines.advance source) fun found => ?_
      cases found with
      | none => exact C.pure _
      | some element => exact C.bind (engines.apply (kept place) (.inl rfl)) fun _ => C.pure _
  | filtered source callback place =>
      rw [compute, compute, engines.patience]
      exact C.bind (advanceFiltered_related engines kept source callback place _) fun _ => C.pure _
  | flattened source callback place inner =>
      rw [compute, compute, engines.patience]
      exact C.bind (advanceFlattened_related engines kept source callback place _ inner) fun _ =>
        C.pure _
  | counting | skipping | finished => exact C.pure _

theorem advanceComputed_related (ref : Nat) (state : SequenceState) :
    C.rel (advanceComputed first ref state) (advanceComputed second ref state) := by
  have computed := finishing_related ref (compute_related engines kept state)
  refine C.bind (C.ask fun _ _ => rfl) fun running => C.ite (fun _ => C.stop _) fun _ => ?_
  refine C.bind (setRunning_related ref true) fun _ => C.bind computed fun found => ?_
  refine C.bind (setRunning_related ref false) fun _ => ?_
  rcases found with _ | ⟨element, after⟩
  · exact C.bind (C.setState ref _) fun _ => C.pure _
  · exact C.bind (C.setState ref after) fun _ => C.pure _

omit kept in
theorem advanceSkipping_related (ref source skip : Nat) :
    C.rel (advanceSkipping first ref source skip) (advanceSkipping second ref source skip) := by
  induction skip with
  | zero => exact engines.advance source
  | succ skip ih =>
      refine C.bind (engines.advance source) fun found => ?_
      cases found with
      | none => exact C.pure _
      | some _ => exact C.bind (C.setState ref _) fun _ => ih

theorem advance_related (ref : Nat) : C.rel (advance first ref) (advance second ref) := by
  refine C.bind (stateOf_related ref) fun state => ?_
  have computed := advanceComputed_related engines kept ref state
  cases state with
  | finished => exact C.pure _
  | counting next =>
      refine C.bind (C.lift _) fun after => ?_
      exact C.bind (C.setState ref _) fun _ => C.pure _
  | skipping source skip =>
      refine C.bind (finishing_related ref (advanceSkipping_related engines ref source skip))
        fun found => ?_
      cases found with
      | some element => exact C.pure _
      | none => exact C.bind (C.setState ref _) fun _ => C.pure _
  | stepping | mapped | filtered | flattened => exact computed

end

end LazySequence

namespace Command

theorem launch_related {sink : String → Eval Unit} (logs : ∀ text, C.rel (sink text) (sink text))
    (command : String) (arguments : List String) (program : Process.Program) :
    C.rel (launch sink command arguments program) (launch sink command arguments program) := by
  unfold launch
  refine C.get_set_bind (.of_surroundings (fun _ _ => rfl) fun _ => rfl) fun session hidden => ?_
  refine C.bind (C.lift _) fun output => C.bind (C.lift _) fun errors => ?_
  refine C.ite (fun _ => C.bind (logs errors) fun _ => ?_) fun _ => ?_
  all_goals exact C.ite (fun _ => C.pure _) fun _ => C.pure _

theorem execute_related {sink : String → Eval Unit} (logs : ∀ text, C.rel (sink text) (sink text))
    (command : String) (arguments : List String) :
    C.rel (execute sink command arguments) (execute sink command arguments) := by
  refine C.get_bind fun session hidden => ?_
  obtain ⟨store, core, module, files, directory, home, shell, events, results, running⟩ := session
  cases shell with
  | recorded outputs failures => exact C.bind (C.emit _) fun _ => C.pure _
  | launching programs =>
      refine C.bind (C.log _ _ _) fun _ => C.ite (fun _ => C.stop _) fun _ => ?_
      dsimp only [Session.withHidden]
      split
      · exact C.pure _
      · exact launch_related logs command arguments _

end Command

namespace Interpret

def known (scope : Nat) : Expr → Eval Value
  | .command _ name => Eval.lookup scope name
  | _ => pure .null

def callKnown (engine : Engine) (scope : Nat) (place : Location) (head : Expr) (body : List Expr)
    (bound : Value) : Eval Value := do
  if bound.isCallable then callValue engine scope place bound body
  else
    match ← engine.interpret head scope with
    | .string command => do
        let arguments ← body.mapM (commandArgument engine scope)
        runCommand command arguments.flatten place
    | value =>
        if value.isCallable then callValue engine scope place value body
        else Eval.problem place .notCallable

theorem callExpression_eq (engine : Engine) (scope : Nat) (place : Location) (head : Expr)
    (body : List Expr) :
    callExpression engine scope place head body =
      known scope head >>= callKnown engine scope place head body := by
  cases head <;> rfl

theorem runCommand_related (kept : C.placed place place) (command : String)
    (arguments : List String) :
    C.rel (runCommand command arguments place) (runCommand command arguments place) := by
  refine C.bind (C.log _ _ _) fun _ => ?_
  refine C.bind (Command.execute_related (fun text => C.log _ _ _) command arguments)
    fun found => ?_
  cases found with
  | ok output => exact C.pure _
  | error failure => exact C.problem kept _

end Interpret

namespace Apply

theorem parameterCount_withHidden (store : Store) (hidden : Hidden) (parameters : Value) :
    parameterCount (store.withHidden hidden) parameters = parameterCount store parameters := by
  cases parameters <;> rfl

theorem calleeName_withHidden (store : Store) (hidden : Hidden) (name : Value) :
    calleeName (store.withHidden hidden) name = calleeName store name := by
  unfold calleeName
  rw [Store.shown_withHidden]
  cases name <;> rfl

theorem fixedElements_withHidden (store : Store) (hidden : Hidden) (value : Value) :
    (store.withHidden hidden).fixedElements value = store.fixedElements value := by
  cases value <;> rfl

/-- The call of a function that a program defined, once its arguments are counted. -/
def enter (engine : Engine) (closure : Closure) (arguments : List Value) : Eval Value := do
  let scope ← Eval.newScope closure.scope
  let parameters ← Eval.lift ((← get).store.fixedElements closure.parameters)
  bindParameters scope parameters arguments
  engine.interpret closure.body scope

theorem intact_related (type : String) (replaced : Bindings Value) :
    C.rel (intact type replaced) (intact type replaced) := by
  cases replaced with
  | nil => exact C.pure _
  | cons part rest => exact C.fault _

include agree in
theorem closure_related {found found' : Closure} {arguments : List Value}
    (parameters : found'.parameters = found.parameters) (name : found'.name = found.name)
    (replaced : found'.replaced = found.replaced)
    (entered : C.rel (enter first found arguments) (enter second found' arguments)) :
    C.rel (closure first found arguments place) (closure second found' arguments place') := by
  unfold closure
  rw [parameters, name, replaced]
  refine C.bind (intact_related _ _) fun _ => ?_
  refine C.store_lift (fun store => parameterCount store found.parameters)
    (fun store hidden => parameterCount_withHidden store hidden _) fun expected => ?_
  refine C.ite (fun _ => ?_) fun _ => ?_
  · exact C.bind (C.read fun store hidden => calleeName_withHidden store hidden _) fun callee =>
      C.stopAt agree _
  · unfold enter at entered
    rwa [parameters] at entered

end Apply

include engines agree in
theorem Apply.apply_related {callee : Value} {arguments : List Value}
    (few : place = place' ∨ arguments.length ≤ 1)
    (commands : ∀ command : SessionCommand,
      C.rel (command.call place arguments) (command.call place' arguments))
    (defined : ∀ ref, callee = .closure ref →
      C.rel (apply first callee arguments place) (apply second callee arguments place')) :
    C.rel (apply first callee arguments place) (apply second callee arguments place') := by
  cases callee with
  | library ref =>
      refine C.bind (C.ask fun _ _ => rfl) fun found => ?_
      cases found with
      | none => exact C.problem agree _
      | some cell =>
          exact C.recovering agree (cell.function.call_related engines agree few commands)
  | closure ref => exact defined ref rfl
  | bound ref =>
      refine C.bind (C.ask fun _ _ => rfl) fun found => ?_
      cases found with
      | none => exact C.problem agree _
      | some method =>
          exact C.bind (intact_related _ _) fun _ =>
            C.recovering agree method.function.call_related
  | form ref =>
      refine C.bind (C.ask fun _ _ => rfl) fun name => ?_
      exact C.bind (C.read fun store hidden => store.shown_withHidden hidden name) fun _ =>
        C.problem agree _
  | host function => exact C.recovering agree function.call_related
  | _ => exact C.problem agree _

end ShellLisp
