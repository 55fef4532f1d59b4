import ShellLisp.Proofs.Sequences.Closures
import ShellLisp.Proofs.Widening.Sessions

/-!
# Loops that call a function

A loop that calls a function for each element does what the library does when it maps the function
over the elements. The loop makes one more scope for each element, and its calls are at another
place.
-/

namespace ShellLisp
open Widening

variable {base scope : Nat} {session wide other : Session} {name : String} {value : Value}

/-! ## Going into a scope -/

namespace Session

theorem entered_eq (whole : session.Whole) (parent : Nat) (name : String) (value : Value) :
    session.entered parent name value = session.withScope session.store.scopes.next
      ⟨[(name, value)], some parent, session.store.scopes.module? parent⟩ := by
  have kept {scope : Nat} (present : scope < session.store.scopes.next) :
      Scopes.renumber session.store.scopes.next scope = scope := Scopes.renumber_of_lt present
  have closures : session.store.closures.map (fun closure =>
      { closure with scope := Scopes.renumber session.store.scopes.next closure.scope }) =
        session.store.closures := by
    refine Array.ext_getElem? fun ref => ?_
    rw [Array.getElem?_map]
    cases found : session.store.closures[ref]? with
    | none => rfl
    | some closure => rw [Option.map_some, kept (whole.closures found)]
  have scopes : (session.store.scopes.pushChild parent).define session.store.scopes.next name
      value = session.store.scopes.insert session.store.scopes.next
        ⟨[(name, value)], some parent, session.store.scopes.module? parent⟩ := by
    rw [Scopes.pushChild, whole.scopes.push_eq_insert]
    exact Scopes.insert_modify_self (Nat.le_refl _) (Bindings.define name value)
  unfold entered withScope Store.newScope Store.define
  rw [closures, kept whole.core, kept whole.module]
  simp only [scopes]

theorem lookup?_entered_self (session : Session) (parent : Nat) :
    (session.entered parent name value).store.scopes.lookup? session.store.scopes.next name =
      some value := by
  obtain ⟨module, there⟩ := session.frame_entered parent name value
  exact Scopes.lookup?_bound there (by simp)

theorem lookup?_entered (whole : session.Whole) (present : scope < session.store.scopes.next)
    {found : String} (different : found ≠ name) :
    (session.entered scope name value).store.scopes.lookup? session.store.scopes.next found =
      session.store.scopes.lookup? scope found := by
  obtain ⟨module, there⟩ := session.frame_entered scope name value
  have unequal : (found == name) = false := by simpa using different
  have unbound : List.lookup found [(name, value)] = none := by simp [List.lookup_cons, unequal]
  rw [Scopes.lookup?_inherited there unbound rfl present, entered_eq whole]
  exact Scopes.lookup?_insert_of_lt present found

end Session

def Widening.anywhere (position : Nat) (frame : Scope Value) : Widening :=
  ⟨position, frame, Location.Any, fun _ => trivial⟩

/-- When only the second of two runs goes into a scope, it is wider by that scope. -/
theorem Session.Beside.entered (beside : session.Beside base other) (whole : other.Whole)
    (parent : Nat) (name : String) (value : Value) :
    ∃ wide frame, Widened base session wide ∧
      (Widening.anywhere other.store.scopes.next frame).Relates wide
        (other.entered parent name value) := by
  obtain ⟨⟨wide, widened, same⟩, events⟩ := beside
  generalize other.events = told at same events
  subst same
  have present : wide.Whole := ⟨whole.scopes, whole.closures, whole.core, whole.module⟩
  refine ⟨wide, ⟨[(name, value)], some parent, wide.store.scopes.module? parent⟩, widened,
    Nat.le_refl _, present, ?_, ?_⟩
  · rw [widened.events]
    exact events
  · exact congrArg (fun session : Session => { session with events := told })
      (entered_eq present parent name value)

/-! ## The calls of a loop -/

/-- Elements that are not computed by a lazy sequence. -/
def Cursor.Stored (cursor : Cursor) : Prop := ∀ ref, cursor ≠ .sequence ref

namespace Engine

theorem next_stored {cursor : Cursor} (stored : cursor.Stored) (engine lower : Engine) :
    engine.next cursor = lower.next cursor := by
  cases cursor with
  | sequence ref => exact absurd rfl (stored ref)
  | chars rest => cases rest <;> rfl
  | items rest => cases rest <;> rfl
  | elements | pairs | keys | ended => rfl

theorem runOn_entryAt_same (map position size : Nat) (session : Session) :
    ∃ entry, (entryAt map position size).runOn session = (entry, session) := by
  unfold entryAt
  rw [Eval.runOn_ask_bind]
  split
  · exact ⟨_, rfl⟩
  · exact ⟨_, rfl⟩

theorem runOn_next_stored {cursor : Cursor} (stored : cursor.Stored) (engine : Engine)
    (session : Session) :
    ∃ found after, (engine.next cursor).runOn session = (found, after) ∧
      after.store.scopes = session.store.scopes ∧
      ∀ item rest, found = .ok (some (item, rest)) → rest.Stored := by
  -- Only a lazy sequence runs the program when it is asked for an element.
  cases cursor with
  | sequence ref => exact absurd rfl (stored ref)
  | ended => exact ⟨_, _, rfl, rfl, by simp⟩
  | elements array position =>
      refine ⟨_, _, rfl, rfl, fun item rest found => ?_⟩
      obtain ⟨_, -, same⟩ := Option.map_eq_some_iff.mp (Except.ok.inj found)
      cases same
      simp [Cursor.Stored]
  | chars rest =>
      cases rest with
      | nil => exact ⟨_, _, rfl, rfl, by simp⟩
      | cons c rest => exact ⟨_, _, rfl, rfl, by simp [Cursor.Stored]⟩
  | items rest =>
      cases rest with
      | nil => exact ⟨_, _, rfl, rfl, by simp⟩
      | cons item rest => exact ⟨_, _, rfl, rfl, by simp [Cursor.Stored]⟩
  | pairs map position size =>
      obtain ⟨entry, run⟩ := runOn_entryAt_same map position size session
      rw [next, Eval.runOn_bind, run]
      rcases entry with failure | _ | ⟨key, value⟩
      · exact ⟨_, _, rfl, rfl, by simp⟩
      · exact ⟨_, _, rfl, rfl, by simp⟩
      · exact ⟨_, _, rfl, rfl, by simp [Cursor.Stored]⟩
  | keys map position size =>
      obtain ⟨entry, run⟩ := runOn_entryAt_same map position size session
      rw [next, Eval.runOn_bind, run]
      rcases entry with failure | entry
      · exact ⟨_, _, rfl, rfl, by simp⟩
      · refine ⟨_, _, rfl, rfl, fun item rest found => ?_⟩
        obtain ⟨_, -, same⟩ := Option.map_eq_some_iff.mp (Except.ok.inj found)
        cases same
        simp [Cursor.Stored]

end Engine

/-- The cursors and sessions that are come through when a function is called with one element after
the other. -/
inductive Engine.Walks (engine : Engine) (callee : Value) (place : Location) (start : Cursor)
    (first : Session) : Cursor → Session → Prop
  | start : Walks engine callee place start first start first
  | next {cursor rest : Cursor} {item value : Value} {before between after : Session}
      (walks : Walks engine callee place start first cursor before)
      (found : (engine.next cursor).runOn before = (.ok (some (item, rest)), between))
      (called : (engine.apply callee [item] place).runOn between = (.ok value, after)) :
      Walks engine callee place start first rest after

theorem Form.runOn_visit (engine : Engine) (scope : Nat) (name : String) (result : Expr)
    (item : Value) (session : Session) :
    (visit engine scope name result item).runOn session =
      (engine.interpret result session.store.scopes.next).runOn
        (session.entered scope name item) := rfl

section
variable {engine : Engine} {callee : Value} {function element : String}
variable {place place' functionPlace elementPlace : Location}

def callByName (place functionPlace elementPlace : Location) (function element : String) : Expr :=
  .call place [.variable functionPlace function, .variable elementPlace element]

variable (callable : callee.isCallable = true) (plain : ∀ ref, callee ≠ .form ref)
include callable plain

theorem Interpret.runOn_callByName {item : Value}
    (known : session.store.scopes.lookup? scope function = some callee)
    (given : session.store.scopes.lookup? scope element = some item) :
    (interpret engine.deeper (callByName place functionPlace elementPlace function element)
        scope).runOn session =
      (engine.deeper.apply callee [item] place).runOn session := by
  have head : (engine.deeper.interpret (.variable functionPlace function) scope).runOn session =
      (.ok callee, session) := by
    show (Except.ok ((session.store.scopes.lookup? scope function).getD .null), session) = _
    rw [known]
    rfl
  have argument : (values engine.deeper scope [.variable elementPlace element]).runOn session =
      (.ok [item], session) := by
    show (Except.ok [(session.store.scopes.lookup? scope element).getD .null], session) = _
    rw [given]
    rfl
  have called : (callValue engine.deeper scope place callee
      [.variable elementPlace element]).runOn session =
        (engine.deeper.apply callee [item] place).runOn session := by
    unfold callValue
    split
    · exact absurd rfl (plain _)
    · exact Eval.runOn_bind_ok argument _
  show (callExpression engine.deeper scope place (.variable functionPlace function)
    [.variable elementPlace element]).runOn session = _
  rw [callExpression_eq]
  refine (Eval.runOn_bind_ok (a := Value.null) rfl _).trans ((Eval.runOn_bind_ok head _).trans ?_)
  rw [← called]
  cases callee with
  | library | form | closure | bound | host => rfl
  | _ => cases callable

variable (unaffected : ∀ w : Widening, engine.Unaffected w) (different : function ≠ element)
include unaffected different

/-- One call by name, in a scope of its own, beside the same call of the function. -/
theorem Form.visit_accompanies (together : session.Together base other) (present : scope < base)
    (known : session.store.scopes.lookup? scope function = some callee) (item : Value) :
    Accompanies base ((engine.deeper.apply callee [item] place).runOn session)
      ((visit engine.deeper.deeper scope element
        (callByName place' functionPlace elementPlace function element) item).runOn other) := by
  have beside := together.trails.beside
  have inside : scope < other.store.scopes.next := Nat.lt_of_lt_of_le present together.enough'
  obtain ⟨wide, frame, widened, relates⟩ := beside.entered together.whole' scope element item
  have seen : (other.entered scope element item).store.scopes.lookup? other.store.scopes.next
      function = some callee := by
    rw [Session.lookup?_entered together.whole' inside different, beside.lookup? present, known]
  have called : (Interpret.interpret engine.deeper
      (callByName place' functionPlace elementPlace function element)
        other.store.scopes.next).runOn (other.entered scope element item) = _ :=
    Interpret.runOn_callByName callable plain seen (other.lookup?_entered_self scope)
  rw [runOn_visit]
  refine (congrArg (Accompanies base _) called).mpr ?_
  refine widened.accompanies (fun w => ?_) ?_ together.enough' relates together.enough
  · exact (unaffected w).deeper.apply (w.here place) (.inl rfl) base
  · exact (unaffected _).deeper.apply trivial (.inr (Nat.le_refl _)) base

/-- The induction over the elements: the two runs are always at the same cursor. -/
theorem Engine.foldWithin_accompanies {start cursor : Cursor} {first : Session}
    (kept : ∀ cursor between, Walks engine.deeper callee place start first cursor between →
      between.store.scopes.lookup? scope function = some callee)
    (walks : Walks engine.deeper callee place start first cursor session) (stored : cursor.Stored)
    (together : session.Together base other) (present : scope < base) (bound : Nat)
    (found : Array Value) :
    Accompanies base
      ((engine.deeper.foldWithin (fun found item =>
        return found.push (← engine.deeper.apply callee [item] place)) bound cursor found).runOn
        session)
      ((engine.deeper.deeper.foldWithin (fun found item =>
        return found.push (← Form.visit engine.deeper.deeper scope element
          (callByName place' functionPlace elementPlace function element) item))
        bound cursor found).runOn other) := by
  induction bound generalizing cursor session other found with
  | zero => exact .failed (.same _) together.trails
  | succ bound ih =>
      have follows (w : Widening) : w.Follows base (engine.deeper.next cursor)
          (engine.deeper.next cursor) :=
        next_related (C := w.rules base) (unaffected w).deeper.related cursor
      -- Both ask for the same element, which leaves the scopes alone.
      have asked := together.trails.accompanies follows together.enough
      have together' := together.runOn follows follows asked
      obtain ⟨outcome, after, run, scopes, behind⟩ := runOn_next_stored stored engine.deeper session
      rw [foldWithin, foldWithin, next_stored stored engine.deeper.deeper engine.deeper,
        Eval.runOn_bind, Eval.runOn_bind]
      rw [run] at asked together' ⊢
      generalize (engine.deeper.next cursor).runOn other = run' at asked together' ⊢
      cases asked with
      | failed alike trails => exact .failed alike trails
      | @returned step _ other trails =>
          rcases step with _ | ⟨item, rest⟩
          · exact .returned found trails
          have known : after.store.scopes.lookup? scope function = some callee := by
            rw [scopes]
            exact kept cursor session walks
          let body := callByName place' functionPlace elementPlace function element
          -- Only the loop makes a scope for it, and no function that is made keeps that scope.
          have visited : Accompanies base
              ((engine.deeper.apply callee [item] place).runOn after)
              ((Form.visit engine.deeper.deeper scope element body item).runOn other) :=
            Form.visit_accompanies callable plain unaffected different together' present known item
          have applied (w : Widening) : w.Follows base (engine.deeper.apply callee [item] place)
              (engine.deeper.apply callee [item] place) :=
            (unaffected w).deeper.apply (w.here place) (.inl rfl) base
          have looped (w : Widening) := Form.visit_follows (unaffected w).deeper.deeper present
            element body item
          have last := together'.runOn applied looped visited
          dsimp only
          simp only [bind_assoc, pure_bind]
          rw [Eval.runOn_bind, Eval.runOn_bind]
          generalize call : (engine.deeper.apply callee [item] place).runOn after = called
            at visited last ⊢
          generalize (Form.visit engine.deeper.deeper scope element _ item).runOn other = looped'
            at visited last ⊢
          cases visited with
          | failed alike trails => exact .failed alike trails
          | returned value trails =>
              exact ih (walks.next run call) (behind item rest rfl) last _

end

end ShellLisp
