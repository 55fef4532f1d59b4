import ShellLisp.Proofs.Changes.Library
import ShellLisp.Proofs.Scoping.WriteDiscipline

/-!
# Changes that evaluations make

The evaluator that spares what is reserved changes a session by single steps, each of which leaves
alone what is reserved. The special forms that bind and remove names are followed up to the call
itself: in a call that does not touch a reserved name, the step that binds or removes is allowed.
-/

namespace ShellLisp
open Session

variable {reserved : Guarded} {locals : Nat → Prop} {engine : Engine} {place : Location}
  {scope : Nat} {body : List Expr} {arguments : List Value} {session : Session} {α β : Type}

/-! ## Lazy sequences -/

namespace LazySequence

theorem setState_makes {ref : Nat} (free : ¬reserved.range ref) (state : SequenceState) :
    Makes reserved locals (setState ref state) :=
  .update fun _ => .modifySequence fun guarded => absurd guarded free

theorem setRunning_makes {ref : Nat} (free : ¬reserved.range ref) (running : Bool) :
    Makes reserved locals (setRunning ref running) :=
  .update fun _ => .modifySequence fun guarded => absurd guarded free

theorem advanceFiltered_makes (makes : engine.MakesChanges reserved) (source : Nat)
    (callback : Value) (bound : Nat) :
    Makes reserved locals (advanceFiltered engine source callback place bound) := by
  induction bound with
  | zero => exact .fault _
  | succ bound ih =>
      refine .bind (makes.advance source) fun found => ?_
      cases found with
      | none => exact .pure _
      | some element =>
          refine .bind (makes.apply callback [element] place) fun verdict => ?_
          exact .bind (.ask _) fun kept => .ite (.pure _) ih

theorem advanceFlattened_makes (makes : engine.MakesChanges reserved) (source : Nat)
    (callback : Value) (bound : Nat) (inner : Cursor) :
    Makes reserved locals (advanceFlattened engine source callback place bound inner) := by
  induction bound generalizing inner with
  | zero => exact .fault _
  | succ bound ih =>
      refine .bind (Engine.next_makes makes inner) fun found => ?_
      cases found with
      | some step => exact .pure _
      | none =>
          refine .bind (makes.advance source) fun next => ?_
          cases next with
          | none => exact .pure _
          | some element =>
              refine .bind (makes.apply callback [element] place) fun result => ?_
              refine .bind (Arguments.iterable_makes result) fun _ => ?_
              exact .bind (.ask _) fun cursor => ih cursor

theorem compute_makes (makes : engine.MakesChanges reserved) (state : SequenceState) :
    Makes reserved locals (compute engine state) := by
  cases state with
  | stepping => exact .lift _
  | mapped source callback place =>
      refine .bind (makes.advance source) fun found => ?_
      cases found with
      | none => exact .pure _
      | some element => exact .bind (makes.apply callback [element] place) fun _ => .pure _
  | filtered source callback place =>
      exact .bind (advanceFiltered_makes makes source callback _) fun _ => .pure _
  | flattened source callback place inner =>
      exact .bind (advanceFlattened_makes makes source callback _ inner) fun _ => .pure _
  | counting | skipping | finished => exact .pure _

theorem finishing_makes {ref : Nat} (free : ¬reserved.range ref) {action : Eval α}
    (makes : Makes reserved locals action) : Makes reserved locals (finishing ref action) :=
  makes.tryCatch fun _ =>
    .bind (setState_makes free _) fun _ => .bind (setRunning_makes free _) fun _ => .throw _

theorem advanceComputed_makes (makes : engine.MakesChanges reserved) {ref : Nat}
    (free : ¬reserved.range ref) (state : SequenceState) :
    Makes reserved locals (advanceComputed engine ref state) := by
  refine .bind (.ask _) fun running => .guard (.fault _) ?_
  refine .bind (setRunning_makes free _) fun _ => ?_
  refine .bind (finishing_makes free (compute_makes makes state)) fun found => ?_
  refine .bind (setRunning_makes free _) fun _ => ?_
  split
  · exact .bind (setState_makes free _) fun _ => .pure _
  · exact .bind (setState_makes free _) fun _ => .pure _

theorem advanceSkipping_makes (makes : engine.MakesChanges reserved) {ref : Nat}
    (free : ¬reserved.range ref) (source skip : Nat) :
    Makes reserved locals (advanceSkipping engine ref source skip) := by
  induction skip with
  | zero => exact makes.advance source
  | succ skip ih =>
      refine .bind (makes.advance source) fun found => ?_
      cases found with
      | none => exact .pure _
      | some _ => exact .bind (setState_makes free _) fun _ => ih

theorem advance_makes_free (makes : engine.MakesChanges reserved) {ref : Nat}
    (free : ¬reserved.range ref) : Makes reserved locals (advance engine ref) := by
  refine .bind (.ask _) fun state => ?_
  cases state with
  | finished => exact .pure _
  | counting next =>
      exact .bind (.lift _) fun _ => .bind (setState_makes free _) fun _ => .pure _
  | skipping source skip =>
      refine .bind (finishing_makes free (advanceSkipping_makes makes free source skip))
        fun found => ?_
      cases found with
      | some element => exact .pure _
      | none => exact .bind (setState_makes free _) fun _ => .pure _
  | stepping | mapped | filtered | flattened => exact advanceComputed_makes makes free _

/-- A guarded range gives the element that is pulled from it, or it is spent and then finished. -/
theorem advance_makes_guarded {ref : Nat} (guarded : reserved.range ref) :
    Makes reserved locals (advance engine ref) := by
  refine .step fun session ready _ => ?_
  obtain ⟨sequence, there, isRange⟩ := ready.ranges ref guarded
  have moved {state : SequenceState} {elements : List Value}
      (gives : sequence.state.Gives elements state) :
      Change reserved session (session.withState ref state) := by
    refine .store (.modifySequence fun _ found same => ?_)
    rw [there] at same
    cases same
    exact ⟨rfl, elements, gives⟩
  cases pulled : sequence.state.pull with
  | error fault =>
      rw [runOn_advance_error engine there isRange.still pulled]
      exact moved (.finish fun step given => by rw [pulled] at given; cases given)
  | ok step =>
      cases step with
      | none =>
          rw [runOn_advance_none engine there isRange pulled]
          exact moved (.finish fun step given => by rw [pulled] at given; cases given)
      | some step =>
          rw [runOn_advance_some engine there isRange.still pulled]
          exact moved (.cons pulled (.nil step.2))

theorem advance_makes (makes : engine.MakesChanges reserved) (ref : Nat) :
    Makes reserved locals (advance engine ref) := by
  by_cases guarded : reserved.range ref
  · exact advance_makes_guarded guarded
  · exact advance_makes_free makes guarded

end LazySequence

/-! ## Deletions -/

theorem Scopes.findWithin?_erase {scopes : Scopes Value} {module : Option Nat} {name : String}
    (holder : Nat) (other : String) (scope : Nat)
    (absent : scopes.findWithin? module scope name = none) :
    (scopes.modify holder (Bindings.erase other)).findWithin? module scope name = none := by
  induction scope using Nat.strongRecOn with
  | _ scope ih =>
      rw [findWithin?] at absent ⊢
      split at absent
      · cases absent
      · rename_i unbound
        have still : ¬Bindings.binds name
            ((scopes.modify holder (Bindings.erase other)).bindings scope) = true := by
          rcases bindings_modify scopes holder (Bindings.erase other) scope with same | ⟨-, same⟩
          · rwa [same]
          · rw [same]
            intro bound
            obtain ⟨entry, member, found⟩ := List.any_eq_true.mp bound
            exact unbound (List.any_eq_true.mpr ⟨entry, (List.mem_filter.mp member).1, found⟩)
        rw [if_neg still, parent?_congr (parentLink_modify holder _ scope)]
        split at absent
        · rename_i top
          rw [if_pos top]
        · rename_i further
          rw [if_neg further]
          cases linked : scopes.parent? scope with
          | none => rfl
          | some parent =>
              rw [linked] at absent
              exact ih parent.1 parent.2 absent

theorem Scopes.delete_of_absent {scopes : Scopes Value} {scope : Nat} {name : String}
    (absent : (scopes.delete scope name).1 = false) : (scopes.delete scope name).2 = scopes := by
  unfold delete at absent ⊢
  split
  · rename_i holder found
    rw [found] at absent
    cases absent
  · rfl

theorem Scopes.delete_stays_absent {scopes : Scopes Value} {scope : Nat} {name : String}
    (other : String) (absent : (scopes.delete scope name).1 = false) :
    ((scopes.delete scope other).2.delete scope name).1 = false := by
  have unfound : scopes.findWithin? (scopes.module? scope) scope name = none := by
    unfold delete at absent
    split at absent
    · cases absent
    · assumption
  rcases delete_eq scopes scope other with same | ⟨holder, -, same⟩
  · rw [same]
    exact absent
  · rw [same, delete, module?_modify, findWithin?_erase holder other scope unfound]

/-! ## Special forms -/

namespace Form

theorem variableName_makes (form : String) (position : Nat) (e : Expr) :
    Makes reserved locals (variableName form position e) := by
  unfold variableName
  split
  · exact .pure _
  · exact .problem _ _

theorem arrayItems_makes (form : String) (position : Nat) (e : Expr) :
    Makes reserved locals (arrayItems form position e) := by
  unfold arrayItems
  split
  · exact .pure _
  · exact .problem _ _

theorem nameFunction_makes (name : String) (value : Value) :
    Makes reserved locals (nameFunction name value) := by
  unfold nameFunction
  split
  · exact .update fun _ => .modifyClosure _ _
  · exact .pure _

theorem nameFunction_runs (ready : session.Ready reserved) (name : String) (value : Value) :
    ∃ named, (nameFunction name value).runOn session = (.ok (), named) ∧
      Changes reserved session named := by
  have changes : Changes reserved session ((nameFunction name value).runOn session).2 :=
    (nameFunction_makes name value).changes ready
  unfold nameFunction at changes ⊢
  split at changes <;> exact ⟨_, rfl, changes⟩

theorem defineIn_changes (ready : session.Ready reserved) {name : String} {action : Eval Value}
    (makes : Makes reserved (fun _ => False) action)
    (free : ((defineIn scope place name action).runOn session).1.isOk = true →
      reserved.name name = false) :
    Changes reserved session ((defineIn scope place name action).runOn session).2 := by
  rw [defineIn, Eval.runOn_ask_bind] at free ⊢
  cases link : session.store.scopes.module? scope with
  | none => exact .refl
  | some module =>
      have changes := makes.changes ready
      rw [link] at free
      simp only [Eval.runOn_bind] at free ⊢
      cases outcome : action.runOn session with
      | mk found after =>
          rw [outcome] at free changes
          cases found with
          | error failure => exact changes
          | ok value =>
              obtain ⟨stays, keeps⟩ := ready.changes changes
              obtain ⟨named, runs, naming⟩ := nameFunction_runs stays name value
              obtain ⟨-, further⟩ := stays.changes naming
              simp only [runs] at free ⊢
              have present := Scopes.present_of_module? link
              have linkedStill : named.store.scopes.module? scope = some module := by
                rw [(keeps.trans further).module scope present, link]
              exact (changes.trans naming).tail (.define linkedStill (free rfl) value)

theorem free_of_spares {form : SpecialForm} {name : String}
    (spares : touches reserved.toReserved engine scope place body form session = false)
    (target : targets form body = [name]) (notDelete : form ≠ .delete)
    (comesOff : ((call engine scope place body form).runOn session).1.isOk = true) :
    reserved.name name = false := by
  unfold touches at spares
  rw [target] at spares
  cases form with
  | delete => exact absurd rfl notDelete
  | _ => simpa [comesOff] using spares

theorem define_changes (makes : engine.MakesChanges reserved) (ready : session.Ready reserved)
    (spares : touches reserved.toReserved engine scope place body .define session = false) :
    Changes reserved session ((define engine scope place body).runOn session).2 := by
  unfold define
  split
  · rename_i target value
    cases target with
    | «variable» _ name =>
        exact defineIn_changes ready (makes.interpret value scope) fun comesOff =>
          free_of_spares spares rfl nofun comesOff
    | value | command | call | array | map => exact .refl
  · exact .refl

theorem parameterNames_makes (position : Nat) (parameters : List Expr) :
    Makes reserved locals (parameterNames position parameters) := by
  induction parameters generalizing position with
  | nil => exact .pure _
  | cons first rest ih =>
      exact .bind (variableName_makes _ _ _) fun _ => .bind (ih _) fun _ => .pure _

theorem closure_makes (name : Value) (parameters result : Expr) :
    Makes reserved locals (closure scope name parameters result) := by
  refine .bind (arrayItems_makes _ _ _) fun items => .bind (parameterNames_makes _ _) fun names => ?_
  exact .bind (.newTexts _) fun _ => .change fun _ => .newClosure _

theorem defineFunction_changes (ready : session.Ready reserved)
    (spares : touches reserved.toReserved engine scope place body .defineFunction session = false) :
    Changes reserved session ((defineFunction scope place body).runOn session).2 := by
  unfold defineFunction
  split
  · rename_i target parameters result
    cases target with
    | «variable» location name =>
        -- The function is made before the definition, which begins in another session.
        have changes : Changes reserved session
            ((closure scope (.string name) parameters result).runOn session).2 :=
          (closure_makes _ parameters result).changes ready
        have free := free_of_spares spares rfl nofun
        let made : Eval Value := do
          let function ← closure scope (.string name) parameters result
          defineIn scope place name (return function)
        have same : made.runOn session = _ :=
          Eval.runOn_bind session (closure scope (.string name) parameters result) _
        show Changes reserved session (made.runOn session).2
        change ((made.runOn session).1.isOk = true → _) at free
        rw [same] at free ⊢
        cases outcome : (closure scope (.string name) parameters result).runOn session with
        | mk found after =>
            rw [outcome] at free changes
            obtain ⟨stays, -⟩ := ready.changes changes
            cases found with
            | error failure => exact changes
            | ok function => exact changes.trans (defineIn_changes stays (.pure function) free)
    | value | command | call | array | map => exact .refl
  · exact .refl

theorem function_makes : Makes reserved locals (function scope place body) := by
  unfold function
  split
  · exact closure_makes _ _ _
  · exact .problem _ _

theorem choose_makes (makes : engine.MakesChanges reserved) :
    Makes reserved locals (choose engine scope place body) := by
  unfold choose
  split
  · exact .bind (makes.interpret _ scope) fun _ => .bind (.ask _) fun _ =>
      .ite (makes.interpret _ scope) (.pure _)
  · exact .bind (makes.interpret _ scope) fun _ => .bind (.ask _) fun _ =>
      .ite (makes.interpret _ scope) (makes.interpret _ scope)
  · exact .problem _ _

theorem each_makes (makes : engine.MakesChanges reserved) :
    Makes reserved locals (each engine scope place body) := by
  unfold each
  split
  · rename_i target word items result
    have keywords : Makes reserved locals (keyword "in" word) := by
      unfold keyword
      split
      · exact .problem _ _
      · exact .ite (.pure _) (.problem _ _)
    refine .bind (variableName_makes _ _ _) fun name => .bind keywords fun _ => ?_
    refine .bind (makes.interpret items scope) fun source => ?_
    refine .bind (Arguments.iterable_makes source) fun _ => .bind (.ask _) fun cursor => ?_
    refine .bind (Engine.collectMap_makes makes (fun item => ?_) cursor) fun values => .newArray _
    refine .newScope_bind fun inner => .bind (.bindLocal (.inl rfl) name item) fun _ => ?_
    exact makes.interpret result inner
  · exact .problem _ _

theorem bindPair_makes (makes : engine.MakesChanges reserved) {inner : Nat}
    (isInner : locals inner) (pair : List Expr) :
    Makes reserved locals (bindPair engine inner place pair) := by
  unfold bindPair
  split
  · refine .bind (variableName_makes _ _ _) fun name => ?_
    exact .bind (makes.interpret _ inner) fun value => .bindLocal isInner name value
  · exact .problem _ _

theorem bind_makes (makes : engine.MakesChanges reserved) :
    Makes reserved locals (bind engine scope place body) := by
  unfold bind
  split
  · rename_i bindings result
    have paired (items : List Expr) : Makes reserved locals (pairs items) := by
      unfold pairs
      split
      · exact .mapM fun item => arrayItems_makes _ _ item
      · exact .pure _
    refine .bind (arrayItems_makes _ _ _) fun items => .guard (.problem _ _) ?_
    refine .bind (paired items) fun pairs => .newScope_bind fun inner => ?_
    exact .bind (.forM fun pair => bindPair_makes makes (.inl rfl) pair) fun _ =>
      makes.interpret result inner
  · exact .problem _ _

theorem firstThat_makes (makes : engine.MakesChanges reserved) (truth : Bool) (last : Value)
    (candidates : List Expr) :
    Makes reserved locals (firstThat engine scope truth last candidates) := by
  induction candidates generalizing last with
  | nil => exact .pure _
  | cons first rest ih =>
      refine .bind (makes.interpret first scope) fun value => ?_
      exact .bind (.ask _) fun _ => .ite (.pure _) (ih value)

theorem evaluate_makes (makes : engine.MakesChanges reserved) :
    Makes reserved locals (evaluate engine scope place body) := by
  unfold evaluate
  split
  · exact .bind (makes.interpret _ scope) fun value =>
      .bind (Arguments.string_makes value) fun text => makes.evaluate text scope
  · exact .problem _ _

theorem delete_changes (ready : session.Ready reserved) (position : Nat) (body : List Expr)
    (free : ∀ name ∈ targets .delete body, reserved.name name = true →
      (session.store.scopes.delete scope name).1 = false) :
    Changes reserved session ((delete scope position body).runOn session).2 := by
  induction body generalizing session position with
  | nil => exact .refl
  | cons target rest ih =>
      cases target with
      | «variable» _ name =>
          let removed := (session.store.scopes.delete scope name).2
          let after := { session with store := { session.store with scopes := removed } }
          have stepped : Changes reserved session after := by
            cases bound : reserved.name name with
            | false => exact .single (.delete bound scope)
            | true =>
                have same : removed = session.store.scopes :=
                  Scopes.delete_of_absent (free name (by simp [targets]) bound)
                have unchanged : after = session := by simp only [after, same]
                rw [unchanged]
                exact .refl
          obtain ⟨stays, -⟩ := ready.changes stepped
          refine stepped.trans (ih stays (position + 1) fun other member bound => ?_)
          exact Scopes.delete_stays_absent name (free other (by simp [targets, member]) bound)
      | value | command | call | array | map => exact .refl

theorem call_changes (makes : engine.MakesChanges reserved) (ready : session.Ready reserved)
    {form : SpecialForm} (spares : touches reserved.toReserved engine scope place body form session = false) :
    Changes reserved session ((call engine scope place body form).runOn session).2 := by
  have plain {action : Eval Value} (makes : Makes reserved (fun _ => False) action) :
      Changes reserved session (action.runOn session).2 := makes.changes ready
  cases form with
  | define => exact define_changes makes ready spares
  | defineFunction => exact defineFunction_changes ready spares
  | function => exact plain function_makes
  | choose => exact plain (choose_makes makes)
  | each => exact plain (each_makes makes)
  | bind => exact plain (bind_makes makes)
  | delete =>
      refine delete_changes ready 1 body fun name member bound => ?_
      simpa [bound] using List.any_eq_false.mp spares name member
  | and | or => exact plain (firstThat_makes makes _ _ _)
  | evaluate => exact plain (evaluate_makes makes)

end Form

/-! ## Expressions -/

namespace Interpret

theorem values_makes (makes : engine.MakesChanges reserved) :
    Makes reserved locals (values engine scope body) :=
  .mapM fun e => makes.interpret e scope

theorem mapEntries_makes (makes : engine.MakesChanges reserved) (body : List Expr)
    (found : Entries) : Makes reserved locals (mapEntries engine scope body found) := by
  induction body, found using mapEntries.induct with
  | case1 keyExpr valueExpr rest found ih =>
      rw [mapEntries]
      refine .bind (makes.interpret keyExpr scope) fun key => ?_
      refine .bind (makes.interpret valueExpr scope) fun value => ?_
      refine .ite (.bind (.print _) fun shown => ?_) (ih key value)
      exact .bind (.problem _ _) fun _ => ih key value
  | case2 body found short =>
      rw [mapEntries]
      · exact .pure _
      · exact short

theorem commandArgument_makes (makes : engine.MakesChanges reserved) (e : Expr) :
    Makes reserved locals (commandArgument engine scope e) := by
  unfold commandArgument
  split
  · exact .pure _
  · refine .bind (makes.interpret e scope) fun value => ?_
    have printed : Makes reserved locals (do
        let texts ← engine.foldElements (← Engine.elements value) [] fun found element =>
          return (← Eval.print element) :: found
        return texts.reverse) := by
      refine .bind (.ask _) fun cursor => ?_
      refine .bind (Engine.foldElements_makes makes (fun _ _ => ?_) cursor _) fun _ => .pure _
      exact .bind (.print _) fun _ => .pure _
    split
    · exact printed
    · exact printed
    · exact printed
    · exact .bind (.print _) fun _ => .pure _

theorem runCommand_makes (command : String) (arguments : List String) :
    Makes reserved locals (runCommand command arguments place) := by
  refine .bind (.log _ _ _) fun _ => ?_
  refine .bind (Command.execute_makes (fun _ => .log _ _ _) command arguments) fun outcome => ?_
  cases outcome with
  | ok output => exact .pure _
  | error failure => exact .problem _ _

theorem callValue_changes (makes : engine.MakesChanges reserved) (ready : session.Ready reserved)
    (callee : Value)
    (spares : ∀ ref cell, callee = .form ref → session.store.forms[ref]? = some cell →
      Form.touches reserved.toReserved engine scope place body cell.form session = false) :
    Changes reserved session ((callValue engine scope place callee body).runOn session).2 := by
  unfold callValue
  split
  · rename_i ref
    rw [Eval.runOn_ask_bind]
    cases there : session.store.forms[ref]? with
    | some cell => exact Form.call_changes makes ready (spares ref cell rfl there)
    | none => exact .refl
  · refine Makes.changes (.bind (values_makes makes) fun arguments => ?_) ready
    exact makes.apply _ arguments place

theorem callExpression_known (engine : Engine) (scope : Nat) (place : Location) (head : Expr)
    (body : List Expr) (session : Session) : ∃ known : Value,
      (callee engine scope head).runOn session = Eval.runOn session
        (if known.isCallable then return known else engine.interpret head scope) ∧
      (callExpression engine scope place head body).runOn session = Eval.runOn session
        (if known.isCallable then callValue engine scope place known body
        else do
          match ← engine.interpret head scope with
          | .string command => do
              let arguments ← body.mapM (commandArgument engine scope)
              runCommand command arguments.flatten place
          | value =>
              if value.isCallable then callValue engine scope place value body
              else Eval.problem place .notCallable) := by
  cases head with
  | command _ name => exact ⟨(session.store.scopes.lookup? scope name).getD .null, rfl, rfl⟩
  | value | «variable» | call | array | map => exact ⟨.null, rfl, rfl⟩

theorem callExpression_changes (makes : engine.MakesChanges reserved) (ready : session.Ready reserved)
    (head : Expr)
    (spares : touchesName reserved.toReserved engine scope session (.call place (head :: body)) = false) :
    Changes reserved session ((callExpression engine scope place head body).runOn session).2 := by
  obtain ⟨known, stands, called⟩ := callExpression_known engine scope place head body session
  simp only [touchesName, stands] at spares
  rw [called]
  -- The guard looks at what the name stands for before the head is evaluated, and at its value
  -- after.
  by_cases callable : known.isCallable = true
  · rw [if_pos callable] at spares ⊢
    refine callValue_changes makes ready known fun ref cell form there => ?_
    subst form
    have returned : Eval.runOn session (pure (Value.form ref)) = (.ok (.form ref), session) := rfl
    simpa only [returned, there] using spares
  · rw [if_neg callable] at spares ⊢
    have changes := (makes.interpret head scope).changes ready
    rw [Eval.runOn_bind]
    cases outcome : (engine.interpret head scope).runOn session with
    | mk found after =>
        rw [outcome] at spares changes
        obtain ⟨stays, -⟩ := ready.changes changes
        cases found with
        | error failure => exact changes
        | ok value =>
            refine changes.trans ?_
            dsimp only
            split
            · refine Makes.changes (.bind (.mapM fun e => ?_) fun texts => ?_) stays
              · exact commandArgument_makes makes e
              · exact runCommand_makes _ _
            · split
              · refine callValue_changes makes stays _ fun ref cell form there => ?_
                subst form
                dsimp only at spares
                rwa [there] at spares
              · exact .refl

theorem interpret_changes (makes : engine.MakesChanges reserved) (ready : session.Ready reserved)
    (e : Expr) (spares : touchesName reserved.toReserved engine scope session e = false) :
    Changes reserved session ((interpret engine e scope).runOn session).2 := by
  unfold interpret
  split
  · exact .refl
  · exact .refl
  · exact .refl
  · exact Makes.changes (.bind (values_makes makes) fun _ => .newArray _) ready
  · exact Makes.changes (.bind (mapEntries_makes makes _ _) fun _ => .newMap _) ready
  · exact callExpression_changes makes ready _ spares
  · exact .refl

end Interpret

/-! ## Calls of functions -/

namespace Apply

theorem bindParameters_makes (isInner : locals scope) (parameters arguments : List Value) :
    Makes reserved locals (bindParameters scope parameters arguments) := by
  induction parameters generalizing arguments with
  | nil => cases arguments <;> exact .pure _
  | cons parameter rest ih =>
      cases arguments with
      | nil => exact .pure _
      | cons argument others =>
          unfold bindParameters
          dsimp only
          split
          · exact .bind (.bindLocal isInner _ _) fun _ => ih others
          · exact .bind (.lift _) fun _ => ih others

theorem intact_makes (type : String) (replaced : Bindings Value) :
    Makes reserved locals (intact type replaced) := by
  cases replaced with
  | nil => exact .pure _
  | cons part rest => exact .fault _

theorem closure_makes (makes : engine.MakesChanges reserved) (function : Closure) :
    Makes reserved locals (closure engine function arguments place) := by
  refine .bind (intact_makes _ _) fun _ => .get_bind fun session => ?_
  refine .bind (.lift _) fun expected => ?_
  -- What is left when the numbers agree, and also after the problem that is thrown when not.
  have enters : Makes reserved locals (do
      let scope ← Eval.newScope function.scope
      let parameters ← Eval.lift ((← get).store.fixedElements function.parameters)
      bindParameters scope parameters arguments
      engine.interpret function.body scope) := by
    refine .newScope_bind fun scope => .get_bind fun _ => .bind (.lift _) fun parameters => ?_
    exact .bind (bindParameters_makes (.inl rfl) parameters arguments) fun _ =>
      makes.interpret _ scope
  exact .ite (.bind (.read _) fun callee => .bind (.problem _ _) fun _ => enters) enters

theorem recovering_changes {action : Eval Value}
    (changes : Changes reserved session (action.runOn session).2) :
    Changes reserved session ((Eval.recovering place action).runOn session).2 := by
  rw [Eval.recovering, Eval.runOn_tryCatch]
  cases outcome : action.runOn session with
  | mk found after =>
      rw [outcome] at changes
      cases found with
      | ok value => exact changes
      | error failure =>
          cases failure with
          | problem | tooDeep => exact changes
          | fault found =>
              dsimp only
              split <;> exact changes

theorem apply_changes (makes : engine.MakesChanges reserved) (ready : session.Ready reserved)
    (callee : Value) (spares : touchesEntry reserved.toReserved callee arguments session.store = false) :
    Changes reserved session ((apply engine callee arguments place).runOn session).2 := by
  unfold apply
  split
  · rename_i ref
    rw [Eval.runOn_ask_bind]
    cases there : session.store.libraries[ref]? with
    | none => exact .refl
    | some cell =>
        refine recovering_changes ?_
        obtain ⟨function, name⟩ := cell
        by_cases writes : function = .core .set
        · subst writes
          refine Core.set_changes ready fun map key written => ?_
          simpa only [touchesEntry, there, written] using spares
        · exact (LibraryFunction.call_makes makes writes).changes ready
  · refine Makes.changes (.bind (.ask _) fun found => ?_) ready
    cases found with
    | some function => exact closure_makes makes function
    | none => exact .problem _ _
  · refine Makes.changes (.bind (.ask _) fun found => ?_) ready
    cases found with
    | some method =>
        exact .bind (intact_makes _ _) fun _ => .recovering _ (HostFunction.call_makes _)
    | none => exact .problem _ _
  · exact Makes.changes (.bind (.ask _) fun _ => .bind (.read _) fun _ => .problem _ _) ready
  · exact Makes.changes (.recovering _ (HostFunction.call_makes _)) ready
  · exact .refl

end Apply

/-! ## Whole evaluations -/

namespace Engine

theorem evaluateText_makes (makes : engine.MakesChanges reserved) (source : String) (scope : Nat) :
    Makes reserved locals (engine.evaluateText source scope) := by
  have reads : Makes reserved locals (evaluateText.liftExcept (Expr.read source)) := by
    unfold evaluateText.liftExcept
    split
    · exact .pure _
    · exact .throw _
  refine .bind (.boundingDepth none reads) fun found => ?_
  cases found with
  | none => exact .pure _
  | some e => exact .boundingDepth _ (makes.interpret e scope)

/-- What one level of the evaluator does when it refuses to touch what is reserved. -/
theorem sparing_makes (makes : engine.MakesChanges reserved) :
    (sparing reserved.toReserved engine).MakesChanges reserved where
  interpret e scope session ready _ := by
    show Changes reserved session (Eval.runOn session
      (if Interpret.touchesName reserved.toReserved engine scope session e then Eval.fault .reserved
        else Interpret.interpret engine e scope)).2
    split
    · exact .refl
    · rename_i spares
      exact Interpret.interpret_changes makes ready e (Bool.eq_false_iff.mpr spares)
  apply callee arguments place session ready _ := by
    show Changes reserved session (Eval.runOn session
      (if Apply.touchesEntry reserved.toReserved callee arguments session.store then Eval.fault .reserved
        else Apply.apply engine callee arguments place)).2
    split
    · exact .refl
    · rename_i spares
      exact Apply.apply_changes makes ready callee (Bool.eq_false_iff.mpr spares)
  advance ref := LazySequence.advance_makes makes ref
  evaluate source scope := evaluateText_makes makes source scope

theorem sparingOfDepth_makes (reserved : Guarded) (patience depth : Nat) :
    (sparingOfDepth reserved.toReserved patience depth).MakesChanges reserved := by
  induction depth with
  | zero =>
      -- With no level left, every answer is that it goes too deep.
      exact ⟨fun _ _ => .throw _, fun _ _ _ => .throw _, fun _ => .throw _, fun _ _ => .throw _⟩
  | succ depth ih => exact sparing_makes ih

end Engine

namespace Session

theorem start_linked (files : FileTree) (directory home : Path) (shell : Shell) :
    (start files directory home shell).Linked := by
  obtain ⟨bindings, same⟩ := libraryStore_scopes
  unfold start
  rw [same]
  refine ⟨fun {scope module} link => ?_, rfl⟩
  match scope with
  | 0 => cases link
  | 1 =>
      cases link
      exact Nat.lt_succ_self 1
  | scope + 2 => cases link

theorem moduleBindings_start (files : FileTree) (directory home : Path) (shell : Shell) :
    (start files directory home shell).moduleBindings = [] := by
  obtain ⟨bindings, same⟩ := libraryStore_scopes
  unfold moduleBindings start
  rw [same]
  rfl

/-- An evaluation that spares what is reserved makes a row of single changes, none of which binds or
removes a reserved name, or writes a reserved entry. -/
theorem Linked.evaluateSparing_changes (linked : session.Linked) (reserved : Reserved)
    (source : String) : Changes reserved session (session.evaluateSparing reserved source).2 :=
  (Engine.evaluateText_makes (Engine.sparingOfDepth_makes reserved.guarded _ _) source _).changes
    linked.ready

/-- Every evaluation makes a row of single changes. -/
theorem Linked.evaluate_changes (linked : session.Linked) (source : String) :
    Changes Reserved.nothing session (session.evaluate source).2 := by
  rw [← evaluateSparing_nothing]
  exact linked.evaluateSparing_changes .nothing source

end Session

end ShellLisp
