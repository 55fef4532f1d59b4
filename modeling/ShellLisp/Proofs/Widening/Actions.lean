import ShellLisp.Proofs.Parametric.Evaluation
import ShellLisp.Proofs.Widening.Scopes

/-!
# Runs with one more scope

A session is widened by putting in a scope to which nothing leads. An action follows another when,
run in the widened session, it ends as the other one does and leaves the widened session behind. The
two may be calls at different places; then problems and the log differ in the place that they tell.
To follow through a run, every scope that is spoken of must be there.
-/

namespace ShellLisp

/-- What is put in, and which places may stand for each other. -/
structure Widening where
  position : Nat
  frame : Scope Value
  placed : Location → Location → Prop
  here : ∀ place, placed place place

/-- Failures that differ at most in the place. -/
inductive Failure.Alike (placed : Location → Location → Prop) : Failure → Failure → Prop
  | same (failure : Failure) : Alike placed failure failure
  | problem {place place' : Location} (agree : placed place place') (cause : Cause) :
      Alike placed (.at place cause) (.at place' cause)

inductive Event.Alike (placed : Location → Location → Prop) : Event → Event → Prop
  | same (event : Event) : Alike placed event event
  | reported {place place' : Location} (agree : placed place place') (text : String) :
      Alike placed (.reported text place) (.reported text place')

namespace Session

/-- The session with one more scope at a position. -/
def withScope (position : Nat) (frame : Scope Value) (session : Session) : Session :=
  { session with
    store := { session.store with
      closures := session.store.closures.map fun closure =>
        { closure with scope := Scopes.renumber position closure.scope }
      scopes := session.store.scopes.insert position frame }
    core := Scopes.renumber position session.core
    module := Scopes.renumber position session.module }

/-- Every scope that is spoken of is there. -/
structure Whole (session : Session) : Prop where
  scopes : session.store.scopes.Whole
  closures : ∀ {ref : Nat} {closure : Closure}, session.store.closures[ref]? = some closure →
    closure.scope < session.store.scopes.next
  core : session.core < session.store.scopes.next
  module : session.module < session.store.scopes.next

theorem SameHidden.whole {session after : Session} (same : session.SameHidden after)
    (whole : session.Whole) : after.Whole := by
  refine ⟨?_, fun {ref closure} there => ?_, ?_, ?_⟩
  all_goals rw [same.scopes]
  · exact whole.scopes
  · have kept := same.closures ref
    unfold Store.hiddenAt? at kept
    rw [there] at kept
    obtain ⟨old, found, alike⟩ := Option.map_eq_some_iff.mp kept.symm
    rw [← (Prod.mk.inj alike).2]
    exact whole.closures found
  · exact same.core ▸ whole.core
  · exact same.module ▸ whole.module

def hiddenBehind (session : Session) (position : Nat) (frame : Scope Value)
    (events : Array Event) : Hidden where
  body ref := ((session.store.closures[ref]?).map (·.body)).getD default
  scope ref := ((session.store.closures[ref]?).map (Scopes.renumber position ·.scope)).getD 0
  scopes := session.store.scopes.insert position frame
  core := Scopes.renumber position session.core
  module := Scopes.renumber position session.module
  events := events

theorem withScope_eq {session after : Session} (same : session.SameHidden after)
    (position : Nat) (frame : Scope Value) (events : Array Event) :
    { after.withScope position frame with events } =
      after.withHidden (session.hiddenBehind position frame events) := by
  have closures : (after.withScope position frame).store.closures =
      (after.store.withHidden (session.hiddenBehind position frame events)).closures := by
    refine Array.ext_getElem? fun ref => ?_
    rw [Store.getElem?_withHidden]
    have kept := same.closures ref
    unfold Store.hiddenAt? at kept
    simp only [withScope, Array.getElem?_map]
    cases found : after.store.closures[ref]? with
    | none => rfl
    | some closure =>
        rw [found] at kept
        obtain ⟨old, there, alike⟩ := Option.map_eq_some_iff.mp kept.symm
        obtain ⟨body, scope⟩ := Prod.mk.inj alike
        simp only [hiddenBehind, there, Option.map_some, Option.getD_some, body, scope]
  obtain ⟨-, scopes, core, module, -⟩ := same
  show _ = { after with
    store := { after.store with
      closures := (after.store.withHidden
        (session.hiddenBehind position frame events)).closures
      scopes := session.store.scopes.insert position frame }
    core := Scopes.renumber position session.core
    module := Scopes.renumber position session.module
    events }
  rw [← closures, ← scopes, ← core, ← module]
  rfl

end Session

namespace Widening

def number (w : Widening) (scope : Nat) : Nat := Scopes.renumber w.position scope

structure Relates (w : Widening) (session other : Session) : Prop where
  fits : w.position ≤ session.store.scopes.next
  whole : session.Whole
  events : List.Forall₂ (Event.Alike w.placed) session.events.toList other.events.toList
  same : other = { session.withScope w.position w.frame with events := other.events }

variable {w : Widening} {α β : Type} {session other : Session}

namespace Relates

theorem closure (relates : w.Relates session other) (ref : Nat) :
    other.store.closures[ref]? = session.store.closures[ref]?.map fun closure =>
      { closure with scope := w.number closure.scope } := by
  rw [relates.same]
  exact Array.getElem?_map

theorem scopes (relates : w.Relates session other) :
    other.store.scopes = session.store.scopes.insert w.position w.frame := by
  rw [relates.same]
  rfl

theorem withHidden (relates : w.Relates session other) :
    other = session.withHidden (session.hiddenBehind w.position w.frame other.events) :=
  relates.same.trans (Session.withScope_eq (.refl session) _ _ _)

theorem unseeing (relates : w.Relates session other) {step : Session → α × Session}
    (unseeing : Unseeing step) :
    (step other).1 = (step session).1 ∧ w.Relates (step session).2 (step other).2 := by
  have kept := unseeing.kept session
  have run := unseeing.same session (session.hiddenBehind w.position w.frame other.events)
  rw [← relates.withHidden] at run
  rw [run]
  refine ⟨rfl, ?_, kept.whole relates.whole, ?_, ?_⟩
  · rw [kept.scopes]
    exact relates.fits
  · rw [kept.events]
    exact relates.events
  · exact (Session.withScope_eq kept _ _ _).symm

theorem withScopes (relates : w.Relates session other) {scopes : Scopes Value}
    (next : session.store.scopes.next ≤ scopes.next) (whole : scopes.Whole) :
    w.Relates { session with store := { session.store with scopes } }
      { other with
        store := { other.store with scopes := scopes.insert w.position w.frame } } := by
  obtain ⟨fits, present, events, same⟩ := relates
  refine ⟨Nat.le_trans fits next, ⟨whole, fun there => ?_, ?_, ?_⟩, events, ?_⟩
  · exact Nat.lt_of_lt_of_le (present.closures there) next
  · exact Nat.lt_of_lt_of_le present.core next
  · exact Nat.lt_of_lt_of_le present.module next
  · generalize other.events = told at same ⊢
    subst same
    rfl

theorem next_eq (relates : w.Relates session other) :
    other.store.scopes.next = w.number session.store.scopes.next := by
  rw [relates.scopes, Scopes.next_insert relates.fits w.frame]
  exact (Scopes.renumber_of_le relates.fits).symm

theorem core (relates : w.Relates session other) : other.core = w.number session.core := by
  rw [relates.same]
  rfl

theorem module (relates : w.Relates session other) : other.module = w.number session.module := by
  rw [relates.same]
  rfl

theorem modified (relates : w.Relates session other) (scope : Nat)
    (change : Bindings Value → Bindings Value) :
    w.Relates
      { session with
        store := { session.store with scopes := session.store.scopes.modify scope change } }
      { other with
        store := { other.store with
          scopes := other.store.scopes.modify (w.number scope) change } } := by
  have moved : (session.store.scopes.insert w.position w.frame).modify _ change = _ :=
    Scopes.insert_modify relates.fits scope change
  have after := relates.withScopes (Nat.le_of_eq (Scopes.next_modify scope change).symm)
    (relates.whole.scopes.modify scope change)
  rwa [← moved, ← relates.scopes] at after

theorem defined (relates : w.Relates session other) (scope : Nat) (name : String) (value : Value) :
    w.Relates { session with store := session.store.define scope name value }
      { other with store := other.store.define (w.number scope) name value } :=
  relates.modified scope (Bindings.define name value)

theorem pushed (relates : w.Relates session other) {parent module : Option Nat}
    (above : ∀ scope ∈ parent, scope < session.store.scopes.next)
    (own : ∀ scope ∈ module, scope ≤ session.store.scopes.next) :
    w.Relates
      { session with
        store := { session.store with scopes := session.store.scopes.push parent module } }
      { other with
        store := { other.store with
          scopes := other.store.scopes.push (parent.map w.number) (module.map w.number) } } := by
  have moved : (session.store.scopes.insert w.position w.frame).push _ _ = _ :=
    Scopes.insert_push relates.fits parent module
  have longer : (session.store.scopes.push parent module).next = _ :=
    Scopes.next_push parent module
  have after := relates.withScopes (by omega) (relates.whole.scopes.push above own)
  rw [← moved, ← relates.scopes] at after
  exact after

theorem withModule (relates : w.Relates session other) {module : Nat}
    (present : module < session.store.scopes.next) :
    w.Relates { session with module } { other with module := w.number module } := by
  obtain ⟨fits, ⟨scopes, closures, core, -⟩, events, same⟩ := relates
  refine ⟨fits, ⟨scopes, closures, core, present⟩, events, ?_⟩
  generalize other.events = told at same ⊢
  subst same
  rfl

end Relates

/-- How two runs end. Scopes are never removed. -/
inductive Ends (w : Widening) (before : Session) :
    Except Failure α × Session → Except Failure α × Session → Prop
  | returned (a : α) {after other : Session} (relates : w.Relates after other)
      (older : before.store.scopes.next ≤ after.store.scopes.next) :
      Ends w before (.ok a, after) (.ok a, other)
  | failed {failure failure' : Failure} {after other : Session}
      (alike : failure.Alike w.placed failure') (relates : w.Relates after other)
      (older : before.store.scopes.next ≤ after.store.scopes.next) :
      Ends w before (.error failure, after) (.error failure', other)

theorem Ends.after {before between : Session} {first second : Except Failure α × Session}
    (earlier : before.store.scopes.next ≤ between.store.scopes.next)
    (ends : w.Ends between first second) : w.Ends before first second := by
  cases ends with
  | returned a relates older => exact .returned a relates (Nat.le_trans earlier older)
  | failed alike relates older => exact .failed alike relates (Nat.le_trans earlier older)

/-- In sessions with at least so many scopes, the second action follows the first. -/
def Follows (w : Widening) (base : Nat) (first second : Eval α) : Prop :=
  ∀ session other, w.Relates session other → base ≤ session.store.scopes.next →
    w.Ends session (first.runOn session) (second.runOn other)

variable {base : Nat} {first second : Eval α} {next next' : α → Eval β}

namespace Follows

theorem pure (a : α) : w.Follows base (Pure.pure a : Eval α) (Pure.pure a) :=
  fun _ _ relates _ => .returned a relates (Nat.le_refl _)

theorem throw {failure failure' : Failure} (alike : failure.Alike w.placed failure') :
    w.Follows base (throw failure : Eval α) (throw failure') :=
  fun _ _ relates _ => .failed alike relates (Nat.le_refl _)

theorem bind (follows : w.Follows base first second)
    (then_ : ∀ a, w.Follows base (next a) (next' a)) :
    w.Follows base (first >>= next) (second >>= next') := by
  intro session other relates enough
  have ends := follows session other relates enough
  rw [Eval.runOn_bind, Eval.runOn_bind]
  generalize first.runOn session = end₁ at ends ⊢
  generalize second.runOn other = end₂ at ends ⊢
  cases ends with
  | returned a relates older =>
      exact (then_ a _ _ relates (Nat.le_trans enough older)).after older
  | failed alike relates older => exact .failed alike relates older

theorem mono (follows : w.Follows base first second) {other : Nat} (more : base ≤ other) :
    w.Follows other first second := fun session beside relates enough =>
  follows session beside relates (Nat.le_trans more enough)

theorem tryCatch {handler handler' : Failure → Eval α} (follows : w.Follows base first second)
    (handles : ∀ failure failure', failure.Alike w.placed failure' →
      w.Follows base (handler failure) (handler' failure')) :
    w.Follows base (tryCatch first handler) (tryCatch second handler') := by
  intro session other relates enough
  have ends := follows session other relates enough
  rw [Eval.runOn_tryCatch, Eval.runOn_tryCatch]
  generalize first.runOn session = end₁ at ends ⊢
  generalize second.runOn other = end₂ at ends ⊢
  cases ends with
  | returned a relates older => exact .returned a relates older
  | failed alike relates older =>
      exact (handles _ _ alike _ _ relates (Nat.le_trans enough older)).after older

theorem recovering {place place' : Location} (agree : w.placed place place')
    (follows : w.Follows base first second) :
    w.Follows base (Eval.recovering place first) (Eval.recovering place' second) := by
  refine follows.tryCatch fun failure failure' alike => ?_
  cases alike with
  | problem agree cause => exact throw (.problem agree cause)
  | same failure =>
      cases failure with
      | fault found =>
          dsimp only
          split
          · exact throw (.problem agree _)
          · exact throw (.same _)
      | problem found => exact throw (.same _)
      | tooDeep => exact throw (.same _)

theorem modifyGet {step step' : Session → α × Session}
    (steps : ∀ session other, w.Relates session other → base ≤ session.store.scopes.next →
      (step' other).1 = (step session).1 ∧ w.Relates (step session).2 (step' other).2 ∧
        session.store.scopes.next ≤ (step session).2.store.scopes.next) :
    w.Follows base (modifyGet step : Eval α) (modifyGet step') := by
  intro session other relates enough
  obtain ⟨same, after, older⟩ := steps session other relates enough
  show w.Ends session (.ok (step session).1, (step session).2)
    (.ok (step' other).1, (step' other).2)
  rw [same]
  exact .returned _ after older

theorem unseeing {step : Session → α × Session} (unseeing : Unseeing step) :
    w.Follows base (MonadStateOf.modifyGet step : Eval α) (MonadStateOf.modifyGet step) :=
  modifyGet fun session _ relates _ =>
    have ⟨same, after⟩ := relates.unseeing unseeing
    ⟨same, after, Nat.le_of_eq (congrArg Scopes.next (unseeing.kept session).scopes.symm)⟩

theorem get_bind {next next' : Session → Eval β}
    (then_ : ∀ session other, w.Relates session other → base ≤ session.store.scopes.next →
      w.Follows session.store.scopes.next (next session) (next' other)) :
    w.Follows base (get >>= next) (get >>= next') :=
  fun session other relates enough =>
    then_ session other relates enough session other relates (Nat.le_refl _)

theorem ask_bind {query query' : Store → α}
    (then_ : ∀ session other, w.Relates session other → base ≤ session.store.scopes.next →
      w.Follows session.store.scopes.next (next (query session.store))
        (next' (query' other.store))) :
    w.Follows base (Eval.ask query >>= next) (Eval.ask query' >>= next') :=
  fun session other relates enough =>
    then_ session other relates enough session other relates (Nat.le_refl _)

theorem emit {event event' : Event} (alike : event.Alike w.placed event') :
    w.Follows base (Eval.emit event) (Eval.emit event') :=
  modifyGet fun session other relates _ => by
    obtain ⟨fits, whole, events, same⟩ := relates
    refine ⟨rfl, ⟨fits, ⟨whole.scopes, whole.closures, whole.core, whole.module⟩, ?_, ?_⟩,
      Nat.le_refl _⟩
    · simpa [Session.record] using List.rel_append events (.cons alike .nil)
    · generalize other.events = told at same ⊢
      subst same
      rfl

/-! ## Scopes -/

theorem ask {query query' : Store → α}
    (same : ∀ session other, w.Relates session other →
      query' other.store = query session.store) :
    w.Follows base (Eval.ask query) (Eval.ask query') := by
  intro session other relates enough
  show w.Ends session (.ok (query session.store), session) (.ok (query' other.store), other)
  rw [same session other relates]
  exact pure _ session other relates enough

theorem lookup (scope : Nat) (name : String) :
    w.Follows base (Eval.lookup scope name) (Eval.lookup (w.number scope) name) :=
  ask fun session other relates => by
    rw [relates.scopes]
    exact congrArg (Option.getD · Value.null) (Scopes.lookup?_insert scope name)

theorem define (scope : Nat) (name : String) (value : Value) :
    w.Follows base (Eval.define scope name value) (Eval.define (w.number scope) name value) :=
  modifyGet fun _ _ relates _ =>
    ⟨rfl, relates.defined scope name value, Nat.le_of_eq (Scopes.next_modify _ _).symm⟩

theorem delete (scope : Nat) (name : String) :
    w.Follows base
      (Eval.update fun store => { store with scopes := (store.scopes.delete scope name).2 })
      (Eval.update fun store =>
        { store with scopes := (store.scopes.delete (w.number scope) name).2 }) :=
  modifyGet fun session other relates _ => by
    have moved : ((session.store.scopes.insert w.position w.frame).delete _ name).2 = _ :=
      Scopes.insert_delete relates.fits scope name
    have same : (session.store.scopes.delete scope name).2.next = session.store.scopes.next := by
      rcases Scopes.delete_eq session.store.scopes scope name with unchanged | ⟨holder, -, changed⟩
      · rw [unchanged]
      · rw [changed, Scopes.next_modify]
    have after := relates.withScopes (Nat.le_of_eq same.symm)
      (relates.whole.scopes.delete scope name)
    rw [← moved, ← relates.scopes] at after
    exact ⟨rfl, after, Nat.le_of_eq same.symm⟩

/-- What comes next may use the new scope, which takes the place of the same one. -/
theorem newScope_bind {parent : Nat} {next next' : Nat → Eval β} (present : parent < base)
    (then_ : ∀ inner, base ≤ inner →
      w.Follows (inner + 1) (next inner) (next' (w.number inner))) :
    w.Follows base (Eval.newScope parent >>= next) (Eval.newScope (w.number parent) >>= next') := by
  intro session other relates enough
  have above (scope : Nat) (same : scope ∈ some parent) : scope < session.store.scopes.next :=
    Option.some.inj same ▸ Nat.lt_of_lt_of_le present enough
  have own (scope : Nat) (same : scope ∈ none) : scope ≤ session.store.scopes.next := by
    cases same
  have after := relates.pushed above own
  have longer : (session.store.scopes.push (some parent) none).next = _ :=
    Scopes.next_push (some parent) none
  have follows := then_ session.store.scopes.next enough _ _ after (Nat.le_of_eq longer.symm)
  rw [← relates.next_eq] at follows
  exact follows.after (by simp only [longer]; omega)

theorem newClosure {closure : Closure} (present : closure.scope < base) :
    w.Follows base (Eval.change fun store => store.newClosure closure)
      (Eval.change fun store =>
        store.newClosure { closure with scope := w.number closure.scope }) :=
  modifyGet fun session other relates enough => by
    obtain ⟨fits, ⟨scopes, closures, core, module⟩, events, same⟩ := relates
    refine ⟨?_, ⟨fits, ⟨scopes, fun {ref found} there => ?_, core, module⟩, events, ?_⟩,
      Nat.le_refl _⟩
    · rw [same]
      exact congrArg Value.closure Array.size_map
    · simp only [Store.newClosure, Array.getElem?_push] at there
      split at there
      · cases there
        exact Nat.lt_of_lt_of_le present enough
      · exact closures there
    · generalize other.events = told at same ⊢
      subst same
      simp only [Session.withScope, Store.newClosure, Array.map_push]
      rfl

end Follows

def rules (w : Widening) (base : Nat) : Congruence where
  rel := w.Follows base
  placed := w.placed
  pure := .pure
  throw failure := .throw (.same failure)
  problem agree cause := .throw (.problem agree cause)
  bind := .bind
  recovering := .recovering
  cleaning follows cleans _ := follows.tryCatch fun _ _ alike =>
    cleans.bind fun _ => .throw alike
  modifyGet := .unseeing
  get_bind then_ := fun session other relates enough => by
    have follows := then_ session (session.hiddenBehind w.position w.frame other.events)
    rw [← relates.withHidden] at follows
    exact follows session other relates enough
  get_set_bind {α step next next'} unseeing then_ := fun session other relates enough => by
    have follows := then_ session (session.hiddenBehind w.position w.frame other.events)
    rw [← relates.withHidden] at follows
    have kept : session.store.scopes.next = (step session).store.scopes.next :=
      congrArg Scopes.next (unseeing.kept session).scopes.symm
    have after := (relates.unseeing unseeing).2
    exact (follows _ _ after (kept ▸ enough)).after (Nat.le_of_eq kept)
  emit event := .emit (.same event)
  reported agree text := .emit (.reported agree text)

end Widening

end ShellLisp
