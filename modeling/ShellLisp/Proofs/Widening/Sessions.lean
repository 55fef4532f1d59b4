import ShellLisp.Proofs.Scoping.WriteDiscipline
import ShellLisp.Proofs.Widening.Evaluation

/-!
# Sessions beside each other

In every session that evaluations lead to, each scope that is spoken of is there. A session is
beside another when it differs from it by scopes to which nothing leads and that are put in behind
the first ones, and in the places that its log tells. What the first scopes bind and all that values
are made of is then the same in both.
-/

namespace ShellLisp
open Widening

variable {base scope : Nat} {session wide other : Session} {w : Widening} {α : Type}

/-! ## What evaluations keep -/

theorem Widening.relates_withScope (whole : session.Whole)
    (fits : w.position ≤ session.store.scopes.next) :
    w.Relates session (session.withScope w.position w.frame) :=
  ⟨fits, whole, List.forall₂_same.mpr fun event _ => .same event, rfl⟩

theorem Widening.Ends.relates {before : Session} {first second : Except Failure α × Session}
    (ends : w.Ends before first second) : w.Relates first.2 second.2 := by
  cases ends with
  | returned a relates => exact relates
  | failed alike relates => exact relates

theorem Widening.Ends.older {before : Session} {first second : Except Failure α × Session}
    (ends : w.Ends before first second) :
    before.store.scopes.next ≤ first.2.store.scopes.next := by
  cases ends with
  | returned a relates older => exact older
  | failed alike relates older => exact older

/-- What is put in to see that a session is whole. -/
def Widening.last (session : Session) : Widening :=
  ⟨session.store.scopes.next, ⟨[], none, none⟩, Eq, fun _ => rfl⟩

theorem Widening.relates_last (whole : session.Whole) :
    (last session).Relates session
      (session.withScope (last session).position (last session).frame) :=
  relates_withScope whole (Nat.le_refl _)

namespace Session.Whole

theorem runOn {action : Eval α} {action' : Widening → Eval α}
    (follows : ∀ w : Widening, w.Follows base action (action' w)) (whole : session.Whole)
    (enough : base ≤ session.store.scopes.next) :
    (action.runOn session).2.Whole ∧
      session.store.scopes.next ≤ (action.runOn session).2.store.scopes.next := by
  have ends := follows (last session) session _ (relates_last whole) enough
  exact ⟨ends.relates.whole, ends.older⟩

theorem define (whole : session.Whole) (name : String) (value : Value) :
    (session.define name value).Whole :=
  ((relates_last whole).defined session.module name value).whole

theorem clear (whole : session.Whole) : session.clear.Whole := (relates_last whole).clear.whole

theorem installCommands (whole : session.Whole) : session.installCommands.Whole :=
  (relates_last whole).installCommands.whole

theorem evaluateIn (whole : session.Whole) (present : scope < session.store.scopes.next)
    (source : String) : (session.evaluateIn scope source).2.Whole := by
  have follows (w : Widening) := Engine.evaluateText_follows
    (Engine.unaffected_ofDepth w Engine.defaultPatience depthLimits.evaluation) present source
  exact (whole.runOn follows (Nat.le_refl _)).1

end Session.Whole

theorem Session.whole_start (files : FileTree) (directory home : Path) (shell : Shell) :
    (start files directory home shell).Whole := by
  obtain ⟨bindings, single⟩ := libraryStore_scopes
  have noClosure : libraryStore.closures = #[] := rfl
  unfold start
  generalize libraryStore = store at single noClosure ⊢
  have library : store.scopes.Whole := by
    intro scope frame there
    rw [single] at there
    rcases scope with _ | scope
    · cases there
      exact ⟨by simp, by simp⟩
    · cases there
  have next : store.scopes.next = 1 := by rw [single]; rfl
  have longer : (store.scopes.pushModule (some 0)).next = store.scopes.next + 1 :=
    Scopes.next_push _ _
  refine ⟨library.push (by simp [next]) (by simp), fun there => ?_, ?_, ?_⟩
  · simp only [noClosure] at there
    cases there
  · show 0 < (store.scopes.pushModule (some 0)).next
    omega
  · show store.scopes.next < (store.scopes.pushModule (some 0)).next
    omega

theorem Session.Reached.whole (reached : session.Reached) : session.Whole := by
  induction reached with
  | start files directory home shell => exact whole_start files directory home shell
  | evaluate _ source whole => exact whole.evaluateIn whole.module source

/-! ## More scopes behind the first ones -/

/-- The other session has more scopes, which are put in one after the other. -/
inductive Session.Widened (base : Nat) (session : Session) : Session → Prop
  | same : Widened base session session
  | more {wide : Session} (widened : Widened base session wide) (whole : wide.Whole)
      {position : Nat} (frame : Scope Value) (behind : base ≤ position)
      (fits : position ≤ wide.store.scopes.next) :
      Widened base session (wide.withScope position frame)

theorem Failure.Alike.eq {failure failure' : Failure} (alike : failure.Alike Eq failure') :
    failure' = failure := by
  cases alike with
  | same => rfl
  | problem agree => rw [agree]

theorem Event.Alike.eq {event event' : Event} (alike : event.Alike Eq event') :
    event' = event := by
  cases alike with
  | same => rfl
  | reported agree => rw [agree]

namespace Session.Widened

theorem next_le (widened : Widened base session wide) :
    session.store.scopes.next ≤ wide.store.scopes.next := by
  induction widened with
  | same => exact Nat.le_refl _
  | more _ _ frame _ fits ih =>
      have longer := Scopes.next_insert fits frame
      exact Nat.le_trans ih (Nat.le_trans (Nat.le_succ _) (Nat.le_of_eq longer.symm))

theorem lookup? (widened : Widened base session wide) (first : scope < base) (name : String) :
    wide.store.scopes.lookup? scope name = session.store.scopes.lookup? scope name := by
  induction widened with
  | same => rfl
  | more _ _ _ behind _ ih =>
      exact (Scopes.lookup?_insert_of_lt (Nat.lt_of_lt_of_le first behind) name).trans ih

theorem events (widened : Widened base session wide) : wide.events = session.events := by
  induction widened with
  | same => rfl
  | more _ _ _ _ _ ih => exact ih

theorem bindings (widened : Widened base session wide) (first : scope < base) :
    wide.store.scopes.bindings scope = session.store.scopes.bindings scope := by
  induction widened with
  | same => rfl
  | more _ _ _ behind _ ih =>
      exact (Scopes.bindings_insert_of_lt (Nat.lt_of_lt_of_le first behind)).trans ih

/-- An action without scopes of its own does the same in both, and one stays wider. -/
theorem runOn {action : Eval α} (follows : ∀ w : Widening, w.Follows base action action)
    (widened : Widened base session wide) (enough : base ≤ session.store.scopes.next) :
    (action.runOn wide).1 = (action.runOn session).1 ∧
      Widened base (action.runOn session).2 (action.runOn wide).2 := by
  -- One scope after the other: each was put in where no one looks.
  induction widened with
  | same => exact ⟨rfl, .same⟩
  | @more wide widened whole position frame behind fits ih =>
      obtain ⟨same, wider⟩ := ih
      let w : Widening := ⟨position, frame, Eq, fun _ => rfl⟩
      have ends := follows w wide (wide.withScope position frame) (relates_withScope whole fits)
        (Nat.le_trans enough widened.next_le)
      have again : (action.runOn (wide.withScope position frame)).1 = (action.runOn wide).1 := by
        generalize action.runOn (wide.withScope position frame) = end₂ at ends ⊢
        generalize action.runOn wide = end₁ at ends ⊢
        cases ends with
        | returned => rfl
        | failed alike => exact congrArg Except.error alike.eq
      obtain ⟨fits, whole, events, after⟩ := ends.relates
      have told : (action.runOn (wide.withScope position frame)).2.events =
          (action.runOn wide).2.events := by
        refine (Array.toList_inj.mp ?_).symm
        exact List.forall₂_eq_eq_eq ▸ events.imp fun _ _ alike => alike.eq.symm
      rw [told] at after
      refine ⟨again.trans same, ?_⟩
      rw [after]
      exact wider.more whole frame behind fits

end Session.Widened

/-! ## Other places in the log -/

theorem Failure.Alike.mono {placed placed' : Location → Location → Prop}
    (more : ∀ place place', placed place place' → placed' place place')
    {failure failure' : Failure} (alike : failure.Alike placed failure') :
    failure.Alike placed' failure' := by
  cases alike with
  | same => exact .same _
  | problem agree cause => exact .problem (more _ _ agree) cause

theorem Event.Alike.mono {placed placed' : Location → Location → Prop}
    (more : ∀ place place', placed place place' → placed' place place')
    {event event' : Event} (alike : event.Alike placed event') : event.Alike placed' event' := by
  cases alike with
  | same => exact .same _
  | reported agree text => exact .reported (more _ _ agree) text

abbrev Location.Any (_ _ : Location) : Prop := True

/-- The other session has more scopes behind the first ones, and its log may tell other places. -/
structure Session.Beside (base : Nat) (session other : Session) : Prop where
  widened : ∃ wide, Widened base session wide ∧ other = { wide with events := other.events }
  events : List.Forall₂ (Event.Alike Location.Any) session.events.toList other.events.toList

namespace Session.Beside

theorem next_le (beside : Beside base session other) :
    session.store.scopes.next ≤ other.store.scopes.next := by
  obtain ⟨wide, widened, same⟩ := beside.widened
  rw [same]
  exact widened.next_le

theorem closure (beside : Beside base session other) (ref : Nat) :
    other.store.closures[ref]?.map (fun found => (found.parameters, found.body, found.name)) =
      session.store.closures[ref]?.map fun found => (found.parameters, found.body, found.name) := by
  obtain ⟨wide, widened, same⟩ := beside.widened
  rw [same]
  clear same
  induction widened with
  | same => rfl
  | more _ _ _ _ _ ih =>
      rw [← ih]
      simp [withScope, Function.comp_def]

theorem bindings (beside : Beside base session other) (first : scope < base) :
    other.store.scopes.bindings scope = session.store.scopes.bindings scope := by
  obtain ⟨wide, widened, same⟩ := beside.widened
  rw [same]
  exact widened.bindings first

theorem lookup? (beside : Beside base session other) (first : scope < base) (name : String) :
    other.store.scopes.lookup? scope name = session.store.scopes.lookup? scope name := by
  obtain ⟨wide, widened, same⟩ := beside.widened
  rw [same]
  exact widened.lookup? first name

end Session.Beside

/-- What is known of the two sessions while they go on. -/
inductive Session.Trails (base : Nat) (session : Session) : Session → Prop
  | same : Trails base session session
  | wider {w : Widening} {wide other : Session} (widened : Widened base session wide)
      (behind : base ≤ w.position) (relates : w.Relates wide other) : Trails base session other

theorem Session.Trails.beside (trails : session.Trails base other) : session.Beside base other := by
  cases trails with
  | same =>
      exact ⟨⟨session, .same, rfl⟩, List.forall₂_same.mpr fun event _ => .same event⟩
  | @wider w wide _ widened behind relates =>
      refine ⟨⟨_, widened.more relates.whole w.frame behind relates.fits, relates.same⟩, ?_⟩
      rw [← widened.events]
      exact relates.events.imp fun _ _ alike => alike.mono fun _ _ _ => trivial

/-- How two runs end that go on in sessions beside each other. -/
inductive Accompanies (base : Nat) :
    Except Failure α × Session → Except Failure α × Session → Prop
  | returned (a : α) {session other : Session} (trails : session.Trails base other) :
      Accompanies base (.ok a, session) (.ok a, other)
  | failed {failure failure' : Failure} {session other : Session}
      (alike : failure.Alike Location.Any failure') (trails : session.Trails base other) :
      Accompanies base (.error failure, session) (.error failure', other)

theorem Accompanies.trails {first second : Except Failure α × Session}
    (runs : Accompanies base first second) : first.2.Trails base second.2 := by
  cases runs with
  | returned a trails => exact trails
  | failed alike trails => exact trails

theorem Session.Widened.accompanies {action action' : Eval α}
    (follows : ∀ w : Widening, w.Follows base action action) (last : w.Follows base action action')
    (widened : Widened base session wide) (behind : base ≤ w.position)
    (relates : w.Relates wide other) (enough : base ≤ session.store.scopes.next) :
    Accompanies base (action.runOn session) (action'.runOn other) := by
  obtain ⟨same, wider⟩ := widened.runOn follows enough
  have ends := last wide other relates (Nat.le_trans enough widened.next_le)
  have further : (action.runOn session).2.Trails base (action'.runOn other).2 :=
    .wider wider behind ends.relates
  generalize action.runOn session = run at same further ⊢
  generalize action.runOn wide = end₁ at same ends
  generalize action'.runOn other = end₂ at ends further ⊢
  obtain ⟨outcome, after⟩ := run
  cases ends with
  | returned a =>
      cases same
      exact .returned a further
  | failed alike =>
      cases same
      exact .failed (alike.mono fun _ _ _ => trivial) further

theorem Session.Trails.accompanies {action : Eval α}
    (follows : ∀ w : Widening, w.Follows base action action) (trails : session.Trails base other)
    (enough : base ≤ session.store.scopes.next) :
    Accompanies base (action.runOn session) (action.runOn other) := by
  cases trails with
  | wider widened behind relates =>
      exact widened.accompanies follows (follows _) behind relates enough
  | same =>
      cases action.runOn session with
      | mk outcome after =>
          cases outcome with
          | ok a => exact .returned a .same
          | error failure => exact .failed (.same failure) .same

structure Session.Together (base : Nat) (session other : Session) : Prop where
  trails : session.Trails base other
  whole : session.Whole
  whole' : other.Whole
  enough : base ≤ session.store.scopes.next

namespace Session.Together

theorem enough' (together : Together base session other) : base ≤ other.store.scopes.next :=
  Nat.le_trans together.enough together.trails.beside.next_le

theorem runOn {action action' : Eval α} {moved moved' : Widening → Eval α}
    (together : Together base session other)
    (follows : ∀ w : Widening, w.Follows base action (moved w))
    (follows' : ∀ w : Widening, w.Follows base action' (moved' w))
    (runs : Accompanies base (action.runOn session) (action'.runOn other)) :
    Together base (action.runOn session).2 (action'.runOn other).2 := by
  obtain ⟨whole, more⟩ := together.whole.runOn follows together.enough
  have whole' := (together.whole'.runOn follows' together.enough').1
  exact ⟨runs.trails, whole, whole', Nat.le_trans together.enough more⟩

end Session.Together

end ShellLisp
