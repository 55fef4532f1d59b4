import ShellLisp.Proofs.Widening.Actions

/-!
# Forms and commands with one more scope

What library functions cannot do: the commands of an interactive session and the special forms see
and change scopes. All of them follow themselves through the widened session, with the scope that
they are evaluated in renumbered.
-/

namespace ShellLisp

variable {w : Widening} {base scope : Nat} {place place' : Location} {engine : Engine}
variable {body : List Expr} {arguments : List Value}

/-! ## Commands of an interactive session -/

namespace Widening

theorem Relates.defineLibrary {session other : Session} (relates : w.Relates session other)
    (name : String) (function : LibraryFunction) :
    w.Relates (session.defineLibrary name function) (other.defineLibrary name function) := by
  obtain ⟨same, after⟩ := relates.unseeing (.newLibrary ⟨function, .string name⟩)
  have defined := after.defined session.module name (.library session.store.libraries.size)
  rw [← relates.module] at defined
  have value : (other.store.newLibrary ⟨function, .string name⟩).1 =
      .library session.store.libraries.size := same
  unfold Session.defineLibrary Session.define
  simp only [value]
  exact defined

theorem Relates.installCommands {session other : Session} (relates : w.Relates session other) :
    w.Relates session.installCommands other.installCommands := by
  unfold Session.installCommands
  induction sessionCommands generalizing session other with
  | nil => exact relates
  | cons entry rest ih => exact ih (relates.defineLibrary entry.1 _)

theorem next_installCommands (session : Session) :
    session.installCommands.store.scopes.next = session.store.scopes.next := by
  unfold Session.installCommands
  induction sessionCommands generalizing session with
  | nil => rfl
  | cons entry rest ih => exact (ih _).trans (Scopes.next_modify _ _)

theorem Relates.clear {session other : Session} (relates : w.Relates session other) :
    w.Relates session.clear other.clear := by
  have above (scope : Nat) (same : scope ∈ some session.core) :
      scope < session.store.scopes.next := Option.some.inj same ▸ relates.whole.core
  have own (scope : Nat) (same : scope ∈ some session.store.scopes.next) :
      scope ≤ session.store.scopes.next := Nat.le_of_eq (Option.some.inj same).symm
  have pushed := relates.pushed above own
  have present : session.store.scopes.next <
      (session.store.scopes.push (some session.core) (some session.store.scopes.next)).next := by
    rw [Scopes.next_push]
    exact Nat.lt_succ_self _
  have after := pushed.withModule present
  simp only [Option.map_some, ← relates.core, ← relates.next_eq] at after
  exact after

theorem Relates.withoutResults {session other : Session} (relates : w.Relates session other) :
    w.Relates { session with results := 0 } { other with results := 0 } := by
  have forgets : Unseeing fun session => (PUnit.unit, { session with results := 0 }) :=
    .of_surroundings (fun _ _ => rfl) fun _ => rfl
  exact (relates.unseeing forgets).2

theorem Follows.clearResults :
    w.Follows base (modify Session.clearResults : Eval PUnit) (modify Session.clearResults) :=
  modifyGet fun session other relates _ => by
    have results : other.results = session.results := by
      rw [relates.same]
      rfl
    have erased := relates.modified session.module fun bindings =>
      ((List.range session.results).map Session.resultName).foldl
        (fun found name => Bindings.erase name found) bindings
    have after := erased.withoutResults
    rw [← relates.module] at after
    refine ⟨rfl, ?_, Nat.le_of_eq (Scopes.next_modify _ _).symm⟩
    unfold Session.clearResults
    rw [results]
    exact after

theorem Follows.clearDefinitions :
    w.Follows base (modify Session.clearDefinitions : Eval PUnit)
      (modify Session.clearDefinitions) :=
  modifyGet fun session other relates _ => by
    refine ⟨rfl, relates.clear.withoutResults.installCommands, ?_⟩
    have longer : session.clear.store.scopes.next = session.store.scopes.next + 1 :=
      Scopes.next_push _ _
    show session.store.scopes.next ≤ Scopes.next
      (Session.installCommands { session.clear with results := 0 }).store.scopes
    rw [next_installCommands, longer]
    exact Nat.le_succ _

theorem Follows.listDefinitions :
    w.Follows base
      (do
        for name in (← get).definitions do
          Eval.emit (.reply name)
        return .null : Eval Value)
      (do
        for name in (← get).definitions do
          Eval.emit (.reply name)
        return .null) := by
  refine get_bind fun session other relates _ => ?_
  have same : other.definitions = session.definitions := by
    unfold Session.definitions Session.moduleBindings
    rw [relates.module, relates.scopes]
    exact congrArg _ (congrArg _ (Scopes.bindings_insert session.module))
  rw [same]
  refine bind ?_ fun _ => pure _
  generalize session.definitions = names
  induction names with
  | nil => exact pure _
  | cons name rest ih =>
      simp only [List.forIn_cons, bind_assoc, pure_bind]
      exact bind (emit (.same _)) fun _ => ih

end Widening

theorem SessionCommand.call_follows (agree : w.placed place place') (command : SessionCommand) :
    w.Follows base (command.call place arguments) (command.call place' arguments) := by
  have none (callee : String) : w.Follows base (Arguments.empty callee place arguments)
      (Arguments.empty callee place' arguments) := Arguments.empty_related (C := w.rules base) agree
  cases command with
  | exit =>
      refine .bind (.unseeing ?_) fun _ => .pure _
      exact .of_surroundings (fun _ _ => rfl) fun _ => rfl
  | clearResults => exact .bind (none _) fun _ => .bind .clearResults fun _ => .pure _
  | clearDefinitions => exact .bind (none _) fun _ => .bind .clearDefinitions fun _ => .pure _
  | listDefinitions => exact .bind (none _) fun _ => .listDefinitions

/-! ## Special forms -/

/-- An engine to which one more scope makes no difference. The place of a call is left free when
there is at most one argument: no such call keeps its place. -/
structure Engine.Unaffected (w : Widening) (engine : Engine) : Prop where
  interpret : ∀ e {scope base}, scope < base →
    w.Follows base (engine.interpret e scope) (engine.interpret e (w.number scope))
  apply : ∀ {callee arguments place place'}, w.placed place place' →
    place = place' ∨ arguments.length ≤ 1 → ∀ base,
    w.Follows base (engine.apply callee arguments place) (engine.apply callee arguments place')
  advance : ∀ ref base, w.Follows base (engine.advance ref) (engine.advance ref)
  evaluate : ∀ source {scope base}, scope < base →
    w.Follows base (engine.evaluate source scope) (engine.evaluate source (w.number scope))

theorem Engine.Unaffected.related (unaffected : engine.Unaffected w) :
    engine.Related (w.rules base) engine where
  apply agree few := unaffected.apply agree few base
  advance ref := unaffected.advance ref base
  patience := rfl

namespace Form
open Widening

theorem variableName_follows (form : String) (position : Nat) (e : Expr) :
    w.Follows base (variableName form position e) (variableName form position e) := by
  cases e with
  | «variable» => exact .pure _
  | _ => exact .throw (.same _)

theorem arrayItems_follows (form : String) (position : Nat) (e : Expr) :
    w.Follows base (arrayItems form position e) (arrayItems form position e) := by
  cases e with
  | array => exact .pure _
  | _ => exact .throw (.same _)

theorem keyword_follows (word : String) (e : Expr) :
    w.Follows base (keyword word e) (keyword word e) := by
  unfold keyword
  split
  · exact .throw (.same _)
  · exact (w.rules base).ite (fun _ => .pure _) fun _ => .throw (.same _)

theorem nameFunction_follows (name : String) (value : Value) :
    w.Follows base (nameFunction name value) (nameFunction name value) := by
  unfold nameFunction
  split
  · refine .unseeing (.modifyClosure _ (fun closure _ _ => ?_) fun closure => ?_)
    · obtain ⟨parameters, former, around, found⟩ := closure
      cases found <;> rfl
    · obtain ⟨parameters, former, around, found⟩ := closure
      cases found <;> exact ⟨rfl, rfl⟩
  · exact .pure _

theorem defineIn_follows (name : String) {action action' : Eval Value}
    (follows : w.Follows base action action') :
    w.Follows base (defineIn scope place name action)
      (defineIn (w.number scope) place name action') := by
  refine .ask_bind fun session other relates enough => ?_
  have moved : other.store.scopes.module? (w.number scope) =
      (session.store.scopes.module? scope).map w.number := by
    rw [relates.scopes]
    exact Scopes.module?_insert scope
  rw [moved]
  cases session.store.scopes.module? scope with
  | none => exact .throw (.same _)
  | some module =>
      refine .bind (follows.mono enough) fun value => ?_
      refine .bind (nameFunction_follows name value) fun _ => ?_
      exact .bind (.define module name value) fun _ => .pure _

theorem define_follows (unaffected : engine.Unaffected w) (present : scope < base) :
    w.Follows base (define engine scope place body)
      (define engine (w.number scope) place body) := by
  rcases body with _ | ⟨target, _ | ⟨value, _ | ⟨_, _⟩⟩⟩
  case cons.cons.nil =>
    refine .bind (variableName_follows "def" 1 target) fun name => ?_
    exact defineIn_follows name (unaffected.interpret value present)
  all_goals exact .throw (.same _)

theorem parameterNames_follows (position : Nat) :
    w.Follows base (parameterNames position body) (parameterNames position body) := by
  induction body generalizing position with
  | nil => exact .pure _
  | cons first rest ih =>
      exact .bind (variableName_follows "fn" position first) fun name =>
        .bind (ih (position + 1)) fun _ => .pure _

theorem closure_follows (present : scope < base) (name : Value) (parameters result : Expr) :
    w.Follows base (closure scope name parameters result)
      (closure (w.number scope) name parameters result) := by
  refine .bind (arrayItems_follows "fn" 1 parameters) fun items => ?_
  refine .bind (parameterNames_follows 0) fun names => ?_
  refine .bind ((w.rules base).newTexts names) fun texts => ?_
  exact .newClosure present

theorem defineFunction_follows (present : scope < base) :
    w.Follows base (defineFunction scope place body)
      (defineFunction (w.number scope) place body) := by
  rcases body with _ | ⟨target, _ | ⟨parameters, _ | ⟨result, _ | ⟨_, _⟩⟩⟩⟩
  case cons.cons.cons.nil =>
    refine .bind (variableName_follows "defn" 1 target) fun name => ?_
    refine .bind (closure_follows present _ parameters result) fun function => ?_
    exact defineIn_follows name (.pure function)
  all_goals exact .throw (.same _)

theorem function_follows (present : scope < base) :
    w.Follows base (function scope place body) (function (w.number scope) place body) := by
  rcases body with _ | ⟨parameters, _ | ⟨result, _ | ⟨_, _⟩⟩⟩
  case cons.cons.nil => exact closure_follows present _ parameters result
  all_goals exact .throw (.same _)

theorem choose_follows (unaffected : engine.Unaffected w) (present : scope < base) :
    w.Follows base (choose engine scope place body)
      (choose engine (w.number scope) place body) := by
  rcases body with _ | ⟨condition, _ | ⟨value, _ | ⟨other, _ | ⟨_, _⟩⟩⟩⟩
  case cons.cons.nil =>
    refine .bind (unaffected.interpret condition present) fun found => ?_
    refine .bind ((w.rules base).truthy found) fun _ => ?_
    exact (w.rules base).ite (fun _ => unaffected.interpret value present) fun _ => .pure _
  case cons.cons.cons.nil =>
    refine .bind (unaffected.interpret condition present) fun found => ?_
    refine .bind ((w.rules base).truthy found) fun _ => ?_
    exact (w.rules base).ite (fun _ => unaffected.interpret value present) fun _ =>
      unaffected.interpret other present
  all_goals exact .throw (.same _)

def visit (engine : Engine) (scope : Nat) (name : String) (result : Expr) (item : Value) :
    Eval Value := do
  let inner ← Eval.newScope scope
  Eval.define inner name item
  engine.interpret result inner

theorem visit_follows (unaffected : engine.Unaffected w) (present : scope < base) (name : String)
    (result : Expr) (item : Value) :
    w.Follows base (visit engine scope name result item)
      (visit engine (w.number scope) name result item) :=
  .newScope_bind present fun inner _ => .bind (.define inner name item) fun _ =>
    unaffected.interpret result (Nat.lt_succ_self inner)

theorem each_follows (unaffected : engine.Unaffected w) (present : scope < base) :
    w.Follows base (each engine scope place body) (each engine (w.number scope) place body) := by
  rcases body with _ | ⟨target, _ | ⟨word, _ | ⟨source, _ | ⟨result, _ | ⟨_, _⟩⟩⟩⟩⟩
  case cons.cons.cons.cons.nil =>
    have same := w.here source.place
    refine .bind (variableName_follows "for" 1 target) fun name => ?_
    refine .bind (keyword_follows "in" word) fun _ => ?_
    refine .bind (unaffected.interpret source present) fun found => ?_
    refine .bind (Arguments.iterable_related (C := w.rules base) same found) fun _ => ?_
    refine .bind (Engine.entries_related (C := w.rules base) found) fun cursor => ?_
    have visited (item : Value) := visit_follows unaffected present name result item
    exact .bind (Engine.collectMap_related unaffected.related visited cursor) fun values =>
      (w.rules base).newArray values
  all_goals exact .throw (.same _)

theorem pairs_follows : w.Follows base (pairs body) (pairs body) := by
  unfold pairs
  split
  · exact (w.rules base).mapM fun e => arrayItems_follows "let" 1 e
  · exact .pure _

theorem bindPair_follows (unaffected : engine.Unaffected w) (present : scope < base) :
    w.Follows base (bindPair engine scope place body)
      (bindPair engine (w.number scope) place body) := by
  rcases body with _ | ⟨target, _ | ⟨value, _ | ⟨_, _⟩⟩⟩
  case cons.cons.nil =>
    refine .bind (variableName_follows "let" 2 target) fun name => ?_
    exact .bind (unaffected.interpret value present) fun found => .define scope name found
  all_goals exact .throw (.same _)

theorem bind_follows (unaffected : engine.Unaffected w) (present : scope < base) :
    w.Follows base (bind engine scope place body) (bind engine (w.number scope) place body) := by
  rcases body with _ | ⟨bindings, _ | ⟨result, _ | ⟨_, _⟩⟩⟩
  case cons.cons.nil =>
    refine .bind (arrayItems_follows "let" 1 bindings) fun items => ?_
    refine (w.rules base).ite (fun _ => .throw (.same _)) fun _ => ?_
    refine .bind pairs_follows fun found => ?_
    refine .newScope_bind present fun inner _ => ?_
    have last := Nat.lt_succ_self inner
    refine .bind ((w.rules (inner + 1)).forM fun pair => ?_) fun _ => ?_
    · exact bindPair_follows unaffected last
    · exact unaffected.interpret result last
  all_goals exact .throw (.same _)

theorem delete_follows (position : Nat) :
    w.Follows base (delete scope position body) (delete (w.number scope) position body) := by
  induction body generalizing position with
  | nil => exact .pure _
  | cons target rest ih =>
      refine .bind (variableName_follows "delete" position target) fun name => ?_
      exact .bind (.delete scope name) fun _ => ih (position + 1)

theorem firstThat_follows (unaffected : engine.Unaffected w) (present : scope < base)
    (truth : Bool) (last : Value) :
    w.Follows base (firstThat engine scope truth last body)
      (firstThat engine (w.number scope) truth last body) := by
  induction body generalizing last with
  | nil => exact .pure _
  | cons first rest ih =>
      refine .bind (unaffected.interpret first present) fun value => ?_
      refine .bind ((w.rules base).truthy value) fun _ => ?_
      exact (w.rules base).ite (fun _ => .pure _) fun _ => ih value

theorem evaluate_follows (unaffected : engine.Unaffected w) (present : scope < base) :
    w.Follows base (evaluate engine scope place body)
      (evaluate engine (w.number scope) place body) := by
  rcases body with _ | ⟨source, _ | ⟨_, _⟩⟩
  case cons.nil =>
    refine .bind (unaffected.interpret source present) fun value => ?_
    refine .bind (Arguments.string_related (C := w.rules base) (w.here place) value) fun text => ?_
    exact unaffected.evaluate text present
  all_goals exact .throw (.same _)

theorem call_follows (unaffected : engine.Unaffected w) (present : scope < base)
    (form : SpecialForm) :
    w.Follows base (call engine scope place body form)
      (call engine (w.number scope) place body form) := by
  cases form with
  | define => exact define_follows unaffected present
  | defineFunction => exact defineFunction_follows present
  | function => exact function_follows present
  | choose => exact choose_follows unaffected present
  | each => exact each_follows unaffected present
  | bind => exact bind_follows unaffected present
  | delete => exact delete_follows 1
  | and => exact firstThat_follows unaffected present _ _
  | or => exact firstThat_follows unaffected present _ _
  | evaluate => exact evaluate_follows unaffected present

end Form

end ShellLisp
