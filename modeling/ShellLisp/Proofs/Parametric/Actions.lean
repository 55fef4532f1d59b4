import Mathlib.Data.List.Forall2
import ShellLisp.Proofs.Confinement.Actions

/-!
# Relations that the library keeps

No library function sees the scopes, the events, or what a function that a program defined does and
closes over. A relation between actions that is kept by control, and by the steps on a session to
which all this is hidden, holds between a library function and itself, whatever the relation is. The
two may ask different engines and be called at different places, as far as the relation holds
between what these engines do and allows these places.
-/

namespace ShellLisp

/-- What is hidden from the library: the scopes, the events so far, and what functions do and close
over. -/
structure Hidden where
  body : Nat → Expr
  scope : Nat → Nat
  scopes : Scopes Value
  core : Nat
  module : Nat
  events : Array Event

namespace Store

def withHidden (store : Store) (hidden : Hidden) : Store :=
  { store with
    closures := store.closures.mapIdx fun ref closure =>
      { closure with body := hidden.body ref, scope := hidden.scope ref }
    scopes := hidden.scopes }

def hiddenAt? (store : Store) (ref : Nat) : Option (Expr × Nat) :=
  store.closures[ref]?.map fun closure => (closure.body, closure.scope)

def functionAt? (store : Store) (ref : Nat) : Option LibraryFunction :=
  store.libraries[ref]?.map (·.function)

def KeepsFunctions (before after : Store) : Prop :=
  ∀ ref function, before.functionAt? ref = some function → after.functionAt? ref = some function

theorem KeepsFunctions.refl (store : Store) : store.KeepsFunctions store :=
  fun _ _ found => found

theorem KeepsFunctions.trans {before between after : Store}
    (earlier : before.KeepsFunctions between) (later : between.KeepsFunctions after) :
    before.KeepsFunctions after := fun ref function found =>
  later ref function (earlier ref function found)

theorem KeepsFunctions.newLibrary (store : Store) (cell : LibraryCell) :
    store.KeepsFunctions (store.newLibrary cell).2 := by
  intro ref function found
  simp only [functionAt?, Option.map_eq_some_iff] at found ⊢
  obtain ⟨old, there, same⟩ := found
  have older : ref ≠ store.libraries.size := by
    rintro rfl
    simp at there
  refine ⟨old, ?_, same⟩
  show (store.libraries.push cell)[ref]? = some old
  rw [Array.getElem?_push, if_neg older, there]

theorem getElem?_withHidden (store : Store) (hidden : Hidden) (ref : Nat) :
    (store.withHidden hidden).closures[ref]? = store.closures[ref]?.map fun closure =>
      { closure with body := hidden.body ref, scope := hidden.scope ref } := by
  simp [withHidden]

end Store

namespace Session

def withHidden (session : Session) (hidden : Hidden) : Session :=
  { session with
    store := session.store.withHidden hidden
    core := hidden.core
    module := hidden.module
    events := hidden.events }

structure SameHidden (before after : Session) : Prop where
  closures : ∀ ref, after.store.hiddenAt? ref = before.store.hiddenAt? ref
  scopes : after.store.scopes = before.store.scopes
  core : after.core = before.core
  module : after.module = before.module
  events : after.events = before.events

theorem SameHidden.refl (session : Session) : session.SameHidden session :=
  ⟨fun _ => rfl, rfl, rfl, rfl, rfl⟩

theorem SameHidden.trans {before between after : Session} (earlier : before.SameHidden between)
    (later : between.SameHidden after) : before.SameHidden after where
  closures ref := (later.closures ref).trans (earlier.closures ref)
  scopes := later.scopes.trans earlier.scopes
  core := later.core.trans earlier.core
  module := later.module.trans earlier.module
  events := later.events.trans earlier.events

def onStore {α : Type} (step : Store → α × Store) (session : Session) : α × Session :=
  ((step session.store).1, { session with store := (step session.store).2 })

/-- The functions of a session, its scopes and its events. -/
def surroundings (session : Session) :
    Array Closure × Array LibraryCell × Scopes Value × Nat × Nat × Array Event :=
  (session.store.closures, session.store.libraries, session.store.scopes, session.core,
    session.module, session.events)

end Session

/-- A step on a session that neither sees nor changes what is hidden from the library. -/
structure Unseeing {α : Type} (step : Session → α × Session) : Prop where
  same : ∀ (session : Session) hidden,
    step (session.withHidden hidden) = ((step session).1, (step session).2.withHidden hidden)
  kept : ∀ session : Session, session.SameHidden (step session).2
  functions : ∀ session : Session, session.store.KeepsFunctions (step session).2.store

namespace Unseeing
variable {α β : Type}

/-- For most steps both hold by definition. -/
theorem of_surroundings {step : Session → α × Session}
    (same : ∀ (session : Session) hidden, step (session.withHidden hidden) =
      ((step session).1, (step session).2.withHidden hidden))
    (kept : ∀ session, (step session).2.surroundings = session.surroundings) : Unseeing step where
  same := same
  kept session := by
    obtain ⟨closures, -, scopes, core, module, events⟩ := by
      simpa only [Session.surroundings, Prod.mk.injEq] using kept session
    exact ⟨fun ref => by rw [Store.hiddenAt?, closures, Store.hiddenAt?], scopes, core, module,
      events⟩
  functions session ref function found := by
    have libraries := congrArg (·.2.1) (kept session)
    simp only [Session.surroundings] at libraries
    rwa [Store.functionAt?, libraries]

theorem result (a : α) : Unseeing fun session => (a, session) :=
  of_surroundings (fun _ _ => rfl) fun _ => rfl

theorem newArray (items : Array Value) :
    Unseeing (Session.onStore fun store => store.newArray items) :=
  of_surroundings (fun _ _ => rfl) fun _ => rfl

theorem newMap (entries : Entries) : Unseeing (Session.onStore fun store => store.newMap entries) :=
  of_surroundings (fun _ _ => rfl) fun _ => rfl

theorem andThen {first : Session → α × Session} {second : α → Session → β × Session}
    (unseeing : Unseeing first) (further : ∀ a, Unseeing (second a)) :
    Unseeing fun session => second (first session).1 (first session).2 where
  same session hidden := by rw [unseeing.same, (further _).same]
  kept session := (unseeing.kept session).trans ((further _).kept _)
  functions session := (unseeing.functions session).trans ((further _).functions _)

theorem modifyClosure (ref : Nat) {change : Closure → Closure}
    (apart : ∀ closure body scope,
      change { closure with body, scope } = { change closure with body, scope })
    (same : ∀ closure, (change closure).body = closure.body ∧
      (change closure).scope = closure.scope) :
    Unseeing fun session : Session =>
      (PUnit.unit, { session with store := session.store.modifyClosure ref change }) where
  same session hidden := by
    have moved : (session.store.withHidden hidden).modifyClosure ref change =
        (session.store.modifyClosure ref change).withHidden hidden := by
      simp only [Store.modifyClosure, Store.withHidden, Store.mk.injEq, and_true, true_and]
      refine Array.ext_getElem? fun other => ?_
      simp only [Array.getElem?_modify, Array.getElem?_mapIdx]
      cases session.store.closures[other]? with
      | none => simp
      | some closure =>
          split
          · exact congrArg some (apart closure _ _)
          · rfl
    show (PUnit.unit, { session with
      store := (session.store.withHidden hidden).modifyClosure ref change
      core := hidden.core
      module := hidden.module
      events := hidden.events }) = _
    rw [moved]
    rfl
  kept session := by
    refine ⟨fun other => ?_, rfl, rfl, rfl, rfl⟩
    simp only [Store.hiddenAt?, Store.modifyClosure, Array.getElem?_modify]
    split <;> cases session.store.closures[other]? <;> simp [same]
  functions _ _ _ found := found

theorem renameLibrary (ref : Nat) (name : Value) :
    Unseeing fun session : Session =>
      (PUnit.unit, { session with store := session.store.renameLibrary ref name }) where
  same _ _ := rfl
  kept _ := ⟨fun _ => rfl, rfl, rfl, rfl, rfl⟩
  functions session other function found := by
    simp only [Store.functionAt?, Store.renameLibrary, Array.getElem?_modify] at found ⊢
    split <;> simpa [Option.map_map, Function.comp_def] using found

theorem newLibrary (cell : LibraryCell) :
    Unseeing (Session.onStore fun store => store.newLibrary cell) where
  same _ _ := rfl
  kept _ := ⟨fun _ => rfl, rfl, rfl, rfl, rfl⟩
  functions session := .newLibrary session.store cell

end Unseeing

/-- What a function that reports an error leaves in the log: its text, and the place of the call. -/
def Event.reported (text : String) (place : Location) : Event :=
  .logged ⟨.error, "lish", text ++ " (at " ++ place.text ++ ")"⟩

/-- A relation between actions with a clause for everything that the library is made of. -/
structure Congruence where
  rel : ∀ {α : Type}, Eval α → Eval α → Prop
  /-- The places of calls that one and the other action may be. -/
  placed : Location → Location → Prop
  pure : ∀ {α} (a : α), rel (Pure.pure a) (Pure.pure a)
  throw : ∀ {α} failure, rel (throw failure : Eval α) (throw failure)
  problem : ∀ {α place place'}, placed place place' → ∀ cause,
    rel (Eval.problem place cause : Eval α) (Eval.problem place' cause)
  bind : ∀ {α β} {first second : Eval α} {next next' : α → Eval β}, rel first second →
    (∀ a, rel (next a) (next' a)) → rel (first >>= next) (second >>= next')
  recovering : ∀ {α place place'} {first second : Eval α}, placed place place' →
    rel first second → rel (Eval.recovering place first) (Eval.recovering place' second)
  cleaning : ∀ {α} {first second : Eval α} {clean clean' : Eval Unit},
    rel first second → rel clean clean' →
    (∀ session, ∃ after, clean.runOn session = (.ok (), after)) →
    rel (tryCatch first fun failure => do clean; MonadExcept.throw failure)
      (tryCatch second fun failure => do clean'; MonadExcept.throw failure)
  modifyGet : ∀ {α} {step : Session → α × Session}, Unseeing step →
    rel (modifyGet step) (modifyGet step)
  get_bind : ∀ {α} {next next' : Session → Eval α},
    (∀ session hidden, rel (next session) (next' (session.withHidden hidden))) →
    rel (get >>= next) (get >>= next')
  get_set_bind : ∀ {α} {step : Session → Session} {next next' : Session → Eval α},
    Unseeing (fun session => (PUnit.unit, step session)) →
    (∀ session hidden, rel (next session) (next' (session.withHidden hidden))) →
    rel
      (do
        let session ← get
        set (step session)
        next session)
      (do
        let session ← get
        set (step session)
        next' session)
  emit : ∀ event, rel (Eval.emit event) (Eval.emit event)
  reported : ∀ {place place'}, placed place place' → ∀ text,
    rel (Eval.emit (.reported text place)) (Eval.emit (.reported text place'))

namespace Congruence
variable (C : Congruence) {α β γ : Type} {place place' : Location}

theorem fault (found : Fault) : C.rel (Eval.fault found : Eval α) (Eval.fault found) := C.throw _

theorem lift (outcome : Except Fault α) : C.rel (Eval.lift outcome) (Eval.lift outcome) := by
  cases outcome with
  | ok a => exact C.pure a
  | error found => exact C.fault found

theorem stop (failure : Failure) {next next' : γ → Eval α} :
    C.rel (MonadExcept.throw failure >>= next) (MonadExcept.throw failure >>= next') :=
  C.throw failure

theorem stopAt (agree : C.placed place place') (cause : Cause) {next next' : γ → Eval α} :
    C.rel (Eval.problem place cause >>= next) (Eval.problem place' cause >>= next') :=
  C.problem agree cause

theorem ite {condition : Prop} [Decidable condition] {first second other other' : Eval α}
    (whenTrue : condition → C.rel first second) (whenFalse : ¬condition → C.rel other other') :
    C.rel (if condition then first else other) (if condition then second else other') := by
  split
  · exact whenTrue ‹_›
  · exact whenFalse ‹_›

/-! ## Steps on a session -/

theorem modify {step : Session → Session}
    (unseeing : Unseeing fun session => (PUnit.unit, step session)) :
    C.rel (modify step : Eval PUnit) (modify step) := C.modifyGet unseeing

theorem read {query : Store → Except Failure α}
    (same : ∀ store hidden, query (store.withHidden hidden) = query store) :
    C.rel (Eval.read query) (Eval.read query) := by
  refine C.get_bind fun session hidden => ?_
  rw [show (session.withHidden hidden).store = session.store.withHidden hidden from rfl, same]
  cases query session.store with
  | ok a => exact C.pure a
  | error failure => exact C.throw failure

theorem ask {query : Store → α}
    (same : ∀ store hidden, query (store.withHidden hidden) = query store) :
    C.rel (Eval.ask query) (Eval.ask query) := by
  refine C.get_bind fun session hidden => ?_
  rw [show (session.withHidden hidden).store = session.store.withHidden hidden from rfl, same]
  exact C.pure _

theorem store_lift (query : Store → Except Fault γ) {next next' : γ → Eval α}
    (same : ∀ store hidden, query (store.withHidden hidden) = query store)
    (then_ : ∀ found, C.rel (next found) (next' found)) :
    C.rel (do next (← Eval.lift (query (← get).store)))
      (do next' (← Eval.lift (query (← get).store))) := by
  refine C.get_bind fun session hidden => ?_
  rw [show (session.withHidden hidden).store = session.store.withHidden hidden from rfl, same]
  exact C.bind (C.lift _) then_

theorem change {step : Store → α × Store} (unseeing : Unseeing (Session.onStore step)) :
    C.rel (Eval.change step) (Eval.change step) := C.modifyGet unseeing

theorem update {step : Store → Store}
    (unseeing : Unseeing fun session =>
      (PUnit.unit, { session with store := step session.store })) :
    C.rel (Eval.update step) (Eval.update step) := C.modifyGet unseeing

theorem log (severity : Severity) (source text : String) :
    C.rel (Eval.log severity source text) (Eval.log severity source text) := C.emit _

theorem newArray (items : Array Value) : C.rel (Eval.newArray items) (Eval.newArray items) :=
  C.change (.newArray items)

theorem newTexts (texts : List String) : C.rel (Eval.newTexts texts) (Eval.newTexts texts) :=
  C.newArray _

theorem newMap (entries : Entries) : C.rel (Eval.newMap entries) (Eval.newMap entries) :=
  C.change (.newMap entries)

theorem newSequence (label : String) (state : SequenceState) :
    C.rel (Eval.newSequence label state) (Eval.newSequence label state) :=
  C.change (.of_surroundings (fun _ _ => rfl) fun _ => rfl)

/-! ## Rows -/

theorem mapM {items : List α} {action action' : α → Eval β}
    (each : ∀ a, C.rel (action a) (action' a)) :
    C.rel (items.mapM action) (items.mapM action') := by
  induction items with
  | nil => exact C.pure []
  | cons first rest ih =>
      rw [List.mapM_cons, List.mapM_cons]
      exact C.bind (each first) fun b => C.bind ih fun others => C.pure _

theorem forM {items : List α} {action action' : α → Eval PUnit}
    (each : ∀ a, C.rel (action a) (action' a)) :
    C.rel (items.forM action) (items.forM action') := by
  induction items with
  | nil => exact C.pure _
  | cons first rest ih => exact C.bind (each first) fun _ => ih

theorem foldlM {items : List α} {action action' : β → α → Eval β}
    (each : ∀ found a, C.rel (action found a) (action' found a)) (start : β) :
    C.rel (items.foldlM action start) (items.foldlM action' start) := by
  induction items generalizing start with
  | nil => exact C.pure _
  | cons first rest ih =>
      rw [List.foldlM_cons, List.foldlM_cons]
      exact C.bind (each start first) ih

end Congruence

end ShellLisp
