import ShellLisp.Evaluation
import ShellLisp.Proofs.Confinement.Library

/-!
# Evaluation is confined

What one level of the evaluator does is confined to a region when the level below is. By induction
on the number of levels, so is every evaluation in a scope of the region and every call of one of
its functions.
-/

namespace ShellLisp
open Region

variable {R : Region} {engine : Engine} {place : Location}

namespace LazySequence

theorem stateOf_confined {ref : Nat} (inside : R.value (.sequence ref)) :
    R.Confines (stateOf ref) R.state :=
  .ask (fun _ _ => rfl) fun _ closed => closed.sequenceState inside

theorem isRunning_confined (ref : Nat) : R.Confines (isRunning ref) fun _ => True :=
  .ask (fun _ _ => rfl) fun _ _ => trivial

theorem setRunning_confined (ref : Nat) (running : Bool) :
    R.Confines (setRunning ref running) fun _ => True :=
  .update (fun _ _ => rfl) (fun _ => rfl) fun _ closed =>
    closed.modifySequence ref fun _ former => { former with }

theorem advanceFiltered_confined (confined : R.ConfinesEngine engine) {source : Nat}
    {callback : Value} (insideSource : R.value (.sequence source))
    (insideCallback : R.value callback) (bound : Nat) :
    R.Confines (advanceFiltered engine source callback place bound) R.optional := by
  induction bound with
  | zero => exact .fault _
  | succ bound ih =>
      refine .bind (confined.advance insideSource) fun found holds => ?_
      cases found with
      | none => exact .pure holds
      | some element =>
          have visible : R.values [element] := values_cons.mpr ⟨holds element rfl, values_nil⟩
          refine .bind (confined.apply insideCallback visible place) fun verdict _ => ?_
          refine .bind (.truthy verdict) fun kept _ => ?_
          exact .ite (fun _ => .pure holds) fun _ => ih

theorem advanceFlattened_confined (confined : R.ConfinesEngine engine) {source : Nat}
    {callback : Value} (insideSource : R.value (.sequence source))
    (insideCallback : R.value callback) (bound : Nat) {inner : Cursor} (walked : R.cursor inner) :
    R.Confines (advanceFlattened engine source callback place bound inner) R.step := by
  induction bound generalizing inner with
  | zero => exact .fault _
  | succ bound ih =>
      refine .bind (Engine.next_confined confined walked) fun found reached => ?_
      cases found with
      | some step => exact .pure reached
      | none =>
          refine .bind (confined.advance insideSource) fun next holds => ?_
          cases next with
          | none => exact .pure step_none
          | some element =>
              have visible : R.values [element] := values_cons.mpr ⟨holds element rfl, values_nil⟩
              refine .bind (confined.apply insideCallback visible place) fun result inside => ?_
              refine .bind (Arguments.iterable_confined _) fun _ _ => ?_
              exact .bind (.entries inside) fun cursor further => ih further

def holdsStep (R : Region) (found : Option (Value × SequenceState)) : Prop :=
  ∀ element after, found = some (element, after) → R.value element ∧ R.state after

theorem holdsStep_none : holdsStep R none := fun _ _ found => nomatch found

theorem holdsStep_some {element : Value} {after : SequenceState} (inside : R.value element)
    (further : R.state after) : holdsStep R (some (element, after)) := by
  intro found rest same
  cases same
  exact ⟨inside, further⟩

theorem compute_confined (confined : R.ConfinesEngine engine) {state : SequenceState}
    (inside : R.state state) : R.Confines (compute engine state) (holdsStep R) := by
  cases state with
  | stepping current stop step started =>
      -- Only numbers are given out, whether or not the bound ends the sequence.
      have stepped (next : Number) {found : Option (Value × SequenceState)}
          (returned : (if isBefore next stop step then
            pure (some (.number next, .stepping next stop step true)) else pure none :
              Except Fault (Option (Value × SequenceState))) = .ok found) : holdsStep R found := by
        split at returned
        · cases returned
          exact holdsStep_some (R.number next) trivial
        · cases returned
          exact holdsStep_none
      refine .lift fun found returned => ?_
      unfold advanceStepping at returned
      dsimp only at returned
      split at returned
      · cases advanced : current.add step with
        | error fault => rw [advanced] at returned; cases returned
        | ok next =>
            rw [advanced] at returned
            exact stepped next returned
      · exact stepped current returned
  | mapped source callback place =>
      refine .bind (confined.advance inside.1) fun found holds => ?_
      cases found with
      | none => exact .pure holdsStep_none
      | some element =>
          have visible : R.values [element] := values_cons.mpr ⟨holds element rfl, values_nil⟩
          refine .bind (confined.apply inside.2 visible place) fun result holds => ?_
          exact .pure (holdsStep_some holds inside)
  | filtered source callback place =>
      refine .bind (advanceFiltered_confined confined inside.1 inside.2 _) fun found holds => ?_
      refine .pure fun element after same => ?_
      obtain ⟨v, there, rest⟩ := Option.map_eq_some_iff.mp same
      cases rest
      exact ⟨holds _ there, inside⟩
  | flattened source callback place inner =>
      refine .bind (advanceFlattened_confined confined inside.1 inside.2.1 _ inside.2.2)
        fun found holds => ?_
      refine .pure fun element after same => ?_
      obtain ⟨⟨v, rest⟩, there, further⟩ := Option.map_eq_some_iff.mp same
      cases further
      obtain ⟨reached, walked⟩ := holds _ _ there
      exact ⟨reached, inside.1, inside.2.1, walked⟩
  | counting | skipping | finished => exact .pure holdsStep_none

theorem finishing_confined {α : Type} {result : α → Prop} (ref : Nat) {action : Eval α}
    (confined : R.Confines action result) : R.Confines (finishing ref action) result := by
  refine confined.tryCatch fun failure => ?_
  refine .bind (.setState ref trivial) fun _ _ => ?_
  exact .bind (setRunning_confined ref false) fun _ _ => .throw _

theorem advanceComputed_confined (confined : R.ConfinesEngine engine) (ref : Nat)
    {state : SequenceState} (inside : R.state state) :
    R.Confines (advanceComputed engine ref state) R.optional := by
  refine .bind (isRunning_confined ref) fun running _ => ?_
  refine .guard (.fault _) fun _ => ?_
  refine .bind (setRunning_confined ref true) fun _ _ => ?_
  refine .bind (finishing_confined ref (compute_confined confined inside)) fun found holds => ?_
  refine .bind (setRunning_confined ref false) fun _ _ => ?_
  match found with
  | some (element, after) =>
      obtain ⟨visible, further⟩ := holds element after rfl
      refine .bind (.setState ref further) fun _ _ => .pure fun v same => ?_
      cases same
      exact visible
  | none =>
      exact .bind (.setState ref trivial) fun _ _ => .pure fun v same => nomatch same

theorem advanceSkipping_confined (confined : R.ConfinesEngine engine) (ref : Nat) {source : Nat}
    (inside : R.value (.sequence source)) (skip : Nat) :
    R.Confines (advanceSkipping engine ref source skip) R.optional := by
  induction skip with
  | zero => exact confined.advance inside
  | succ skip ih =>
      refine .bind (confined.advance inside) fun found holds => ?_
      cases found with
      | none => exact .pure holds
      | some _ => exact .bind (.setState ref inside) fun _ _ => ih

theorem advance_confined (confined : R.ConfinesEngine engine) {ref : Nat}
    (inside : R.value (.sequence ref)) : R.Confines (advance engine ref) R.optional := by
  refine .bind (stateOf_confined inside) fun state holds => ?_
  have computed : R.Confines (advanceComputed engine ref state) R.optional :=
    advanceComputed_confined confined ref holds
  cases state with
  | finished => exact .pure fun v same => nomatch same
  | counting next =>
      refine .bind (.lift fun _ _ => trivial) fun after (_ : True) => ?_
      refine .bind (.setState ref trivial) fun _ _ => .pure fun v same => ?_
      cases same
      exact R.number next
  | skipping source skip =>
      refine .bind (finishing_confined ref (advanceSkipping_confined confined ref holds skip))
        fun found reached => ?_
      cases found with
      | some element => exact .pure reached
      | none => exact .bind (.setState ref trivial) fun _ _ => .pure reached
  | stepping | mapped | filtered | flattened => exact computed

end LazySequence

namespace Form
variable {scope : Nat} {body : List Expr}

theorem variableName_confined (form : String) (position : Nat) (e : Expr) :
    R.Confines (variableName form position e) fun _ => True := by
  unfold variableName
  split
  · exact .pure trivial
  · exact .problem _ _

theorem arrayItems_confined (form : String) (position : Nat) (e : Expr) :
    R.Confines (arrayItems form position e) fun _ => True := by
  unfold arrayItems
  split
  · exact .pure trivial
  · exact .problem _ _

theorem nameFunction_confined (name : String) (value : Value) :
    R.Confines (nameFunction name value) fun _ => True := by
  unfold nameFunction
  split
  · rename_i ref
    refine .update (fun _ _ => rfl) (fun _ => rfl) fun _ closed =>
      closed.modifyClosure ref fun function former => ?_
    split
    · exact { former with name := R.string name }
    · exact former
  · exact .pure trivial

theorem defineIn_confined (inside : R.scope scope) (name : String) {action : Eval Value}
    (yields : R.Confines action R.value) :
    R.Confines (defineIn scope place name action) R.value := by
  refine .bind (.moduleOf inside) fun found targets => ?_
  cases found with
  | none => exact .problem _ _
  | some module =>
      refine .bind yields fun value holds => ?_
      refine .bind (nameFunction_confined name value) fun _ _ => ?_
      exact .bind (.define (targets module rfl) holds name) fun _ _ => .pure R.null

theorem define_confined (confined : R.ConfinesEngine engine) (inside : R.scope scope) :
    R.Confines (define engine scope place body) R.value := by
  unfold define
  split
  · refine .bind (variableName_confined _ _ _) fun name _ => ?_
    exact defineIn_confined inside name (confined.interpret _ inside)
  · exact .problem _ _

theorem parameterNames_confined (position : Nat) (parameters : List Expr) :
    R.Confines (parameterNames position parameters) fun _ => True := by
  induction parameters generalizing position with
  | nil => exact .pure trivial
  | cons first rest ih =>
      refine .bind (variableName_confined _ _ _) fun name _ => ?_
      exact .bind (ih _) fun _ _ => .pure trivial

theorem closure_confined (inside : R.scope scope) {name : Value} (holdsName : R.value name)
    (parameters result : Expr) : R.Confines (closure scope name parameters result) R.value := by
  refine .bind (arrayItems_confined _ _ _) fun items _ => ?_
  refine .bind (parameterNames_confined _ _) fun names _ => ?_
  refine .bind (.newTexts names) fun texts holds => .change ?_
  exact .newClosure ⟨holds, inside, holdsName, values_nil⟩

theorem defineFunction_confined (inside : R.scope scope) :
    R.Confines (defineFunction scope place body) R.value := by
  unfold defineFunction
  split
  · refine .bind (variableName_confined _ _ _) fun name _ => ?_
    refine .bind (closure_confined inside (R.string name) _ _) fun function holds => ?_
    exact defineIn_confined inside name (.pure holds)
  · exact .problem _ _

theorem function_confined (inside : R.scope scope) :
    R.Confines (function scope place body) R.value := by
  unfold function
  split
  · exact closure_confined inside R.null _ _
  · exact .problem _ _

theorem choose_confined (confined : R.ConfinesEngine engine) (inside : R.scope scope) :
    R.Confines (choose engine scope place body) R.value := by
  unfold choose
  split
  · refine .bind (confined.interpret _ inside) fun condition _ => ?_
    refine .bind (.truthy condition) fun holds _ => ?_
    exact .ite (fun _ => confined.interpret _ inside) fun _ => .pure R.null
  · refine .bind (confined.interpret _ inside) fun condition _ => ?_
    refine .bind (.truthy condition) fun holds _ => ?_
    exact .ite (fun _ => confined.interpret _ inside) fun _ => confined.interpret _ inside
  · exact .problem _ _

theorem keyword_confined (word : String) (e : Expr) :
    R.Confines (keyword word e) fun _ => True := by
  unfold keyword
  split
  · exact .problem _ _
  · exact .ite (fun _ => .pure trivial) fun _ => .problem _ _

theorem each_confined (confined : R.ConfinesEngine engine) (inside : R.scope scope) :
    R.Confines (each engine scope place body) R.value := by
  unfold each
  split
  · refine .bind (variableName_confined _ _ _) fun name _ => ?_
    refine .bind (keyword_confined _ _) fun _ _ => ?_
    refine .bind (confined.interpret _ inside) fun source holds => ?_
    refine .bind (Arguments.iterable_confined _) fun _ _ => ?_
    refine .bind (.entries holds) fun cursor walked => ?_
    refine .bind (Engine.collectMap_confined confined walked fun item visible => ?_)
      fun values all => .newArray all
    refine .bind (.newScope inside) fun inner made => ?_
    refine .bind (.define made.2 visible name) fun _ _ => ?_
    exact confined.interpret _ made.1
  · exact .problem _ _

theorem pairs_confined (items : List Expr) : R.Confines (pairs items) fun _ => True := by
  unfold pairs
  split
  · exact (Confines.mapM fun item _ => arrayItems_confined _ _ item).forget
  · exact .pure trivial

theorem bindPair_confined (confined : R.ConfinesEngine engine) (inside : R.scope scope)
    (target : R.target scope) (pair : List Expr) :
    R.Confines (bindPair engine scope place pair) fun _ => True := by
  unfold bindPair
  split
  · refine .bind (variableName_confined _ _ _) fun name _ => ?_
    exact .bind (confined.interpret _ inside) fun value holds => .define target holds name
  · exact .problem _ _

theorem bind_confined (confined : R.ConfinesEngine engine) (inside : R.scope scope) :
    R.Confines (bind engine scope place body) R.value := by
  unfold bind
  split
  · refine .bind (arrayItems_confined _ _ _) fun items _ => ?_
    refine .guard (.problem _ _) fun _ => ?_
    refine .bind (pairs_confined _) fun pairs _ => ?_
    refine .bind (.newScope inside) fun inner made => ?_
    refine .bind (.forM fun pair _ => bindPair_confined confined made.1 made.2 pair) fun _ _ => ?_
    exact confined.interpret _ made.1
  · exact .problem _ _

theorem delete_confined (inside : R.scope scope) (position : Nat) (targets : List Expr) :
    R.Confines (delete scope position targets) R.value := by
  induction targets generalizing position with
  | nil => exact .pure R.null
  | cons target rest ih =>
      refine .bind (variableName_confined _ _ _) fun name _ => ?_
      exact .bind (.delete inside name) fun _ _ => ih _

theorem firstThat_confined (confined : R.ConfinesEngine engine) (inside : R.scope scope)
    (truth : Bool) {last : Value} (holdsLast : R.value last) (candidates : List Expr) :
    R.Confines (firstThat engine scope truth last candidates) R.value := by
  induction candidates generalizing last with
  | nil => exact .pure holdsLast
  | cons first rest ih =>
      refine .bind (confined.interpret _ inside) fun value holds => ?_
      refine .bind (.truthy value) fun found _ => ?_
      exact .ite (fun _ => .pure holds) fun _ => ih holds

theorem evaluate_confined (confined : R.ConfinesEngine engine) (inside : R.scope scope) :
    R.Confines (evaluate engine scope place body) R.value := by
  unfold evaluate
  split
  · refine .bind (confined.interpret _ inside) fun value _ => ?_
    refine .bind (Arguments.string_confined value) fun text _ => ?_
    exact confined.evaluate text inside
  · exact .problem _ _

theorem call_confined (confined : R.ConfinesEngine engine) (inside : R.scope scope)
    (form : SpecialForm) : R.Confines (call engine scope place body form) R.value := by
  cases form with
  | define => exact define_confined confined inside
  | defineFunction => exact defineFunction_confined inside
  | function => exact function_confined inside
  | choose => exact choose_confined confined inside
  | each => exact each_confined confined inside
  | bind => exact bind_confined confined inside
  | delete => exact delete_confined inside _ _
  | and | or => exact firstThat_confined confined inside _ (R.bool _) _
  | evaluate => exact evaluate_confined confined inside

end Form

namespace Command

theorem launch_confined {sink : String → Eval Unit}
    (sinks : ∀ text, R.Confines (sink text) fun _ => True) (command : String)
    (arguments : List String) (program : Process.Program) :
    R.Confines (launch sink command arguments program) fun _ => True := by
  unfold launch
  refine .get_set_bind (fun _ _ => rfl) (fun _ => rfl) (fun _ => rfl) (fun _ => rfl)
    (fun _ _ => rfl) fun session => ?_
  refine .bind (.lift fun _ _ => trivial) fun output (_ : True) => ?_
  refine .bind (.lift fun _ _ => trivial) fun errors (_ : True) => ?_
  refine .ite (fun _ => .bind (sinks errors) fun _ _ => ?_) fun _ => ?_
  all_goals exact .ite (fun _ => .pure trivial) fun _ => .pure trivial

theorem execute_confined {sink : String → Eval Unit}
    (sinks : ∀ text, R.Confines (sink text) fun _ => True) (command : String)
    (arguments : List String) : R.Confines (execute sink command arguments) fun _ => True := by
  refine .get_bind (fun _ _ => rfl) fun session _ => ?_
  split
  · exact .bind (.emit _) fun _ _ => .pure trivial
  · refine .bind (.log _ _ _) fun _ _ => ?_
    refine .guard (.fault _) fun _ => ?_
    split
    · exact .pure trivial
    · exact launch_confined sinks command arguments _

end Command

namespace Interpret
variable {scope : Nat} {body : List Expr}

theorem values_confined (confined : R.ConfinesEngine engine) (inside : R.scope scope) :
    R.Confines (values engine scope body) R.values :=
  .mapM fun _ _ => confined.interpret _ inside

theorem mapEntries_confined (confined : R.ConfinesEngine engine) (inside : R.scope scope)
    (body : List Expr) {found : Entries} (all : R.entries found.toList) :
    R.Confines (mapEntries engine scope body found) fun made => R.entries made.toList := by
  induction body, found using mapEntries.induct with
  | case1 found keyExpr valueExpr rest ih =>
      rw [mapEntries]
      refine .bind (confined.interpret _ inside) fun key holdsKey => ?_
      refine .bind (confined.interpret _ inside) fun value holdsValue => ?_
      refine .ite (fun _ => ?_) fun _ => ih key value (entries_put all holdsKey holdsValue)
      refine .bind (.print key) fun _ _ => ?_
      exact .bind (.problem _ _) fun _ (impossible : False) => impossible.elim
  | case2 body found short =>
      rw [mapEntries]
      · exact .pure all
      · exact short

theorem callValue_confined (confined : R.ConfinesEngine engine) (inside : R.scope scope)
    {callee : Value} (holds : R.value callee) :
    R.Confines (callValue engine scope place callee body) R.value := by
  unfold callValue
  split
  · refine .bind (.ask (fun _ _ => rfl) fun _ _ => trivial) fun cell (_ : True) => ?_
    cases cell with
    | some cell => exact Form.call_confined confined inside _
    | none => exact .pure R.null
  · exact .bind (values_confined confined inside) fun arguments all =>
      confined.apply holds all place

theorem commandArgument_confined (confined : R.ConfinesEngine engine) (inside : R.scope scope)
    (e : Expr) : R.Confines (commandArgument engine scope e) fun _ => True := by
  unfold commandArgument
  split
  · exact .pure trivial
  · refine .bind (confined.interpret _ inside) fun value holds => ?_
    have printed : R.Confines (do
        let texts ← engine.foldElements (← Engine.elements value) [] fun found element =>
          return (← Eval.print element) :: found
        return texts.reverse) fun _ => True := by
      refine .bind (.elements holds) fun cursor walked => ?_
      refine .bind (Engine.foldElements_confined confined (fun _ => True) walked trivial
        fun _ item _ _ => ?_) fun _ _ => .pure trivial
      exact .bind (.print item) fun _ _ => .pure trivial
    split
    · exact printed
    · exact printed
    · exact printed
    · exact .bind (.print _) fun _ _ => .pure trivial

theorem runCommand_confined (command : String) (arguments : List String) :
    R.Confines (runCommand command arguments place) R.value := by
  refine .bind (.log _ _ _) fun _ _ => ?_
  refine .bind (Command.execute_confined (fun _ => .log _ _ _) command arguments)
    fun outcome _ => ?_
  cases outcome with
  | ok output => exact .pure (R.string output)
  | error failure => exact .problem _ _

theorem callExpression_confined (confined : R.ConfinesEngine engine) (inside : R.scope scope)
    (head : Expr) : R.Confines (callExpression engine scope place head body) R.value := by
  unfold callExpression
  dsimp only
  split
  case' h_1 => refine .bind (.lookup inside _) fun known holds => ?_
  case' h_2 => refine .bind (.pure R.null) fun known holds => ?_
  all_goals
    refine .ite (fun _ => callValue_confined confined inside holds) fun _ => ?_
    refine .bind (confined.interpret _ inside) fun value visible => ?_
    split
    · refine .bind (.mapM fun e _ => commandArgument_confined confined inside e) fun texts _ => ?_
      exact runCommand_confined _ _
    · exact .ite (fun _ => callValue_confined confined inside visible) fun _ => .problem _ _

theorem interpret_confined (confined : R.ConfinesEngine engine) (e : Expr)
    (inside : R.scope scope) : R.Confines (interpret engine e scope) R.value := by
  unfold interpret
  split
  · rename_i literal
    cases literal with
    | null => exact .pure R.null
    | bool b => exact .pure (R.bool b)
    | number n => exact .pure (R.number n)
    | word text | quoted text => exact .pure (R.string text)
  · exact .pure (R.string _)
  · exact .lookup inside _
  · exact .bind (values_confined confined inside) fun found all => .newArray all
  · exact .bind (mapEntries_confined confined inside _ fun _ member => absurd member (by simp))
      fun found all => .newMap all
  · exact callExpression_confined confined inside _
  · exact .problem _ _

end Interpret

namespace Apply
variable {arguments : List Value}

theorem bindParameters_confined {scope : Nat} (target : R.target scope) (parameters : List Value)
    (all : R.values arguments) :
    R.Confines (bindParameters scope parameters arguments) fun _ => True := by
  induction parameters generalizing arguments with
  | nil => cases arguments <;> exact .pure trivial
  | cons parameter rest ih =>
      cases arguments with
      | nil => exact .pure trivial
      | cons argument others =>
          obtain ⟨first, further⟩ := values_cons.mp all
          unfold bindParameters
          dsimp only
          split
          · exact .bind (.define target first _) fun _ _ => ih further
          · exact .bind (.lift fun _ _ => trivial) fun _ (_ : True) => ih further

theorem calleeName_confined (name : Value) :
    R.Confines (Eval.read fun store => calleeName store name) fun _ => True := by
  refine .read (fun store scopes => ?_) fun _ _ _ _ => trivial
  unfold calleeName
  rw [Store.shown_withScopes]
  rfl

theorem intact_confined (type : String) (replaced : Bindings Value) :
    R.Confines (intact type replaced) fun _ => True := by
  cases replaced with
  | nil => exact .pure trivial
  | cons part rest => exact .fault _

theorem closure_confined (confined : R.ConfinesEngine engine) {function : Closure}
    (inside : R.HasClosure function) (all : R.values arguments) :
    R.Confines (closure engine function arguments place) R.value := by
  refine .bind (intact_confined _ _) fun _ _ => ?_
  refine .store_lift (fun store => parameterCount store function.parameters) (fun _ _ => rfl)
    fun _ expected _ _ => ?_
  refine .ite (fun _ => ?_) fun _ => ?_
  · refine .bind (calleeName_confined _) fun callee _ => ?_
    exact .bind (.problem _ _) fun _ (impossible : False) => impossible.elim
  · refine .bind (.newScope inside.scope) fun scope made => ?_
    refine .store_lift (fun store => store.fixedElements function.parameters) (fun _ _ => rfl)
      fun _ parameters _ _ => ?_
    refine .bind (bindParameters_confined made.2 parameters all) fun _ _ => ?_
    exact confined.interpret _ made.1

theorem apply_confined (confined : R.ConfinesEngine engine) (commands : R.ConfinesCommands)
    {callee : Value} (inside : R.value callee) (all : R.values arguments) :
    R.Confines (apply engine callee arguments place) R.value := by
  unfold apply
  split
  · rename_i ref
    have found : R.Confines (Eval.ask fun store => store.libraries[ref]?) fun cell =>
        ∀ known, cell = some known → R.function known.function :=
      .ask (fun _ _ => rfl) fun _ closed _ there => (closed.library inside there).1
    refine found.bind fun cell holds => ?_
    cases cell with
    | some cell =>
        exact .recovering (LibraryFunction.call_confined confined commands all (holds cell rfl))
    | none => exact .problem _ _
  · rename_i ref
    have found : R.Confines (Eval.ask fun store => store.closures[ref]?) fun function =>
        ∀ known, function = some known → R.HasClosure known :=
      .ask (fun _ _ => rfl) fun _ closed _ there => closed.closure inside there
    refine found.bind fun function holds => ?_
    cases function with
    | some function => exact closure_confined confined (holds function rfl) all
    | none => exact .problem _ _
  · rename_i ref
    have found : R.Confines (Eval.ask fun store => store.bounds[ref]?) fun method =>
        ∀ known, method = some known → R.HasBound known :=
      .ask (fun _ _ => rfl) fun _ closed _ there => closed.bound inside there
    refine found.bind fun method holds => ?_
    cases method with
    | some method =>
        refine .bind (intact_confined _ _) fun _ _ => .recovering ?_
        exact HostFunction.call_confined _ (values_cons.mpr ⟨(holds method rfl).receiver, all⟩)
    | none => exact .problem _ _
  · refine .bind (.ask (fun _ _ => rfl) fun _ _ => trivial) fun name (_ : True) => ?_
    exact .bind (.shown name) fun _ _ => .problem _ _
  · exact .recovering (HostFunction.call_confined _ all)
  · exact .problem _ _

end Apply

namespace Engine

theorem boundingDepth_confined {α : Type} {result : α → Prop} (place : Option Location)
    {action : Eval α} (confined : R.Confines action result) :
    R.Confines (Eval.boundingDepth place action) result := by
  refine confined.tryCatch fun failure => ?_
  cases failure with
  | tooDeep | problem | fault => exact .throw _

theorem evaluateText_confined (confined : R.ConfinesEngine engine) (source : String) {scope : Nat}
    (inside : R.scope scope) : R.Confines (engine.evaluateText source scope) R.value := by
  have reads : R.Confines (evaluateText.liftExcept (Expr.read source)) fun _ => True := by
    unfold evaluateText.liftExcept
    split
    · exact .pure trivial
    · exact .throw _
  refine .bind (boundingDepth_confined none reads) fun found _ => ?_
  cases found with
  | none => exact .pure R.null
  | some e => exact boundingDepth_confined _ (confined.interpret e inside)

theorem deeper_confined (confined : R.ConfinesEngine engine) (commands : R.ConfinesCommands) :
    R.ConfinesEngine engine.deeper where
  interpret e _ inside := Interpret.interpret_confined confined e inside
  apply inside all _ := Apply.apply_confined confined commands inside all
  advance inside := LazySequence.advance_confined confined inside
  evaluate source _ inside := evaluateText_confined confined source inside

theorem ofDepth_confined (commands : R.ConfinesCommands) (patience depth : Nat) :
    R.ConfinesEngine (ofDepth patience depth) := by
  induction depth with
  | zero =>
      exact ⟨fun _ _ _ => .throw _, fun _ _ _ => .throw _, fun _ => .throw _,
        fun _ _ _ => .throw _⟩
  | succ depth ih => exact deeper_confined ih commands

theorem default_confined (commands : R.ConfinesCommands) : R.ConfinesEngine Engine.default :=
  ofDepth_confined commands defaultPatience depthLimits.evaluation

end Engine

end ShellLisp
