import ShellLisp.Evaluation
import ShellLisp.Proofs.Confinement.Basic

/-!
# Confined actions

Actions put together of confined ones are confined, and so are the actions on a session of which all
evaluations are made. Reading and changing a store leaves its scopes alone, apart from the actions
on scopes, which are as good as the laws of the region.
-/

namespace ShellLisp

namespace Eval
variable {α β : Type}

theorem runOn_bind (session : Session) (action : Eval α) (next : α → Eval β) :
    (action >>= next).runOn session =
      match action.runOn session with
      | (.ok a, after) => (next a).runOn after
      | (.error failure, after) => (.error failure, after) := by
  show ExceptT.bindCont next (action.runOn session).1 (action.runOn session).2 = _
  rcases action.runOn session with ⟨_ | a, after⟩
  · rfl
  · rfl

theorem runOn_bind_ok {session after : Session} {action : Eval α} {a : α}
    (run : action.runOn session = (.ok a, after)) (next : α → Eval β) :
    (action >>= next).runOn session = (next a).runOn after := by
  rw [runOn_bind, run]

theorem runOn_bind_error {session after : Session} {action : Eval α} {failure : Failure}
    (run : action.runOn session = (.error failure, after)) (next : α → Eval β) :
    (action >>= next).runOn session = (.error failure, after) := by
  rw [runOn_bind, run]

theorem runOn_tryCatch (session : Session) (action : Eval α) (handler : Failure → Eval α) :
    (tryCatch action handler).runOn session =
      match action.runOn session with
      | (.ok a, after) => (.ok a, after)
      | (.error failure, after) => (handler failure).runOn after := by
  cases outcome : action.runOn session with
  | mk found after =>
      have plain : (action : StateT Session Id (Except Failure α)) session = (found, after) :=
        outcome
      cases found with
      | error failure =>
          simp [tryCatch, tryCatchThe, MonadExceptOf.tryCatch, ExceptT.tryCatch, runOn, ExceptT.run,
            ExceptT.mk, StateT.run, bind, StateT.bind, plain]
      | ok a =>
          simp only [runOn, ExceptT.run, StateT.run, tryCatch, tryCatchThe,
            MonadExceptOf.tryCatch, ExceptT.tryCatch, ExceptT.mk, bind, StateT.bind, plain]
          rfl

theorem runOn_get_bind (session : Session) (next : Session → Eval β) :
    (get >>= next).runOn session = (next session).runOn session := rfl

theorem runOn_ask_bind (session : Session) (query : Store → α) (next : α → Eval β) :
    (ask query >>= next).runOn session = (next (query session.store)).runOn session := rfl

theorem runOn_read (query : Store → Except Failure α) (session : Session) :
    (read query).runOn session = (query session.store, session) := by
  unfold read
  rw [runOn_get_bind]
  cases query session.store <;> rfl

theorem runOn_lookup {session : Session} {scope : Nat} {name : String} {value : Value}
    (bound : session.store.scopes.lookup? scope name = some value) :
    (lookup scope name).runOn session = (.ok value, session) :=
  congrArg (fun found => (Except.ok (found.getD .null), session)) bound

end Eval

theorem Apply.runOn_library {session : Session} {ref : Nat} {cell : LibraryCell}
    (there : session.store.libraries[ref]? = some cell) (engine : Engine) (arguments : List Value)
    (place : Location) :
    (apply engine (.library ref) arguments place).runOn session =
      (Eval.recovering place (cell.function.call engine place arguments)).runOn session := by
  rw [apply, Eval.runOn_ask_bind, there]

theorem Interpret.runOn_callNamed {session : Session} {scope ref : Nat} {name : String}
    (bound : session.store.scopes.lookup? scope name = some (.library ref)) (engine : Engine)
    (place commandPlace : Location) (arguments : List Expr) :
    (interpret engine (.call place (.command commandPlace name :: arguments)) scope).runOn session =
      (do engine.apply (.library ref) (← values engine scope arguments) place).runOn session := by
  show (callExpression engine scope place (.command commandPlace name) arguments).runOn session = _
  unfold callExpression
  exact Eval.runOn_bind_ok (Eval.runOn_lookup bound) _

namespace Region
variable {R : Region} {α β : Type} {result other : α → Prop}

/-- A change of a closed store that leaves its scopes alone. -/
structure Writes (R : Region) (step : Store → α × Store) (result : α → Prop) : Prop where
  same : ∀ {store}, R.Closed store → ∀ scopes,
    step (store.withScopes scopes) = ((step store).1, (step store).2.withScopes scopes)
  unchanged : ∀ {store}, R.Closed store → (step store).2.scopes = store.scopes
  keeps : ∀ {store}, R.Closed store → R.Closed (step store).2
  yields : ∀ {store}, R.Closed store → result (step store).1

theorem Writes.pure {a : α} (yields : result a) : R.Writes (fun store => (a, store)) result where
  same _ _ := rfl
  unchanged _ := rfl
  keeps closed := closed
  yields _ := yields

theorem Writes.andThen {first : Store → α × Store} {second : α → Store → β × Store}
    {last : β → Prop} (writes : R.Writes first result)
    (further : ∀ a, result a → R.Writes (second a) last) :
    R.Writes (fun store => second (first store).1 (first store).2) last where
  same closed scopes := by
    rw [writes.same closed, (further _ (writes.yields closed)).same (writes.keeps closed)]
  unchanged closed := by
    rw [(further _ (writes.yields closed)).unchanged (writes.keeps closed), writes.unchanged closed]
  keeps closed := (further _ (writes.yields closed)).keeps (writes.keeps closed)
  yields closed := (further _ (writes.yields closed)).yields (writes.keeps closed)

namespace Confines

theorem mono {action : Eval α} (confined : R.Confines action result)
    (weaker : ∀ a, result a → other a) : R.Confines action other := by
  intro session holds
  obtain ⟨same, keeps, yields⟩ := confined session holds
  exact ⟨same, keeps, fun a returned => weaker a (yields a returned)⟩

theorem forget {action : Eval α} (confined : R.Confines action result) :
    R.Confines action fun _ => True :=
  confined.mono fun _ _ => trivial

theorem pure {a : α} (yields : result a) : R.Confines (pure a) result := by
  intro session holds
  refine ⟨rfl, holds, fun b returned => ?_⟩
  cases returned
  exact yields

theorem throw (failure : Failure) : R.Confines (throw failure : Eval α) result := by
  intro session holds
  exact ⟨rfl, holds, fun a returned => nomatch returned⟩

theorem bind {action : Eval α} {next : α → Eval β} {last : β → Prop}
    (first : R.Confines action result) (then_ : ∀ a, result a → R.Confines (next a) last) :
    R.Confines (action >>= next) last := by
  intro session holds
  obtain ⟨same, keeps, yields⟩ := first session holds
  simp only [Eval.runOn_bind, same]
  cases outcome : action.runOn session with
  | mk found after =>
      rw [outcome] at keeps yields
      cases found with
      | ok a => exact then_ a (yields a rfl) after keeps
      | error failure => exact ⟨rfl, keeps, fun b returned => nomatch returned⟩

theorem tryCatch {action : Eval α} {handler : Failure → Eval α}
    (first : R.Confines action result) (handles : ∀ failure, R.Confines (handler failure) result) :
    R.Confines (tryCatch action handler) result := by
  intro session holds
  obtain ⟨same, keeps, yields⟩ := first session holds
  simp only [Eval.runOn_tryCatch, same]
  cases outcome : action.runOn session with
  | mk found after =>
      rw [outcome] at keeps yields
      cases found with
      | ok a => exact ⟨rfl, keeps, yields⟩
      | error failure => exact handles failure after keeps

theorem get_bind {next : Session → Eval β} {last : β → Prop}
    (same : ∀ session, R.Holds session → next (R.masked session) = next session)
    (then_ : ∀ session, R.Holds session → R.Confines (next session) last) :
    R.Confines (get >>= next) last := by
  intro session holds
  rw [Eval.runOn_get_bind, Eval.runOn_get_bind, same session holds]
  exact then_ session holds session holds

theorem modified {step : Session → Session}
    (same : ∀ session, R.Holds session → step (R.masked session) = R.masked (step session))
    (keeps : ∀ session, R.Holds session → R.Holds (step session)) :
    R.Confines (modify step) fun _ => True := by
  intro session holds
  refine ⟨?_, keeps session holds, fun _ _ => trivial⟩
  show (Except.ok PUnit.unit, step (R.masked session)) = _
  rw [same session holds]
  rfl

theorem ite {first second : Eval α} {condition : Prop} [Decidable condition]
    (whenTrue : condition → R.Confines first result)
    (whenFalse : ¬condition → R.Confines second result) :
    R.Confines (if condition then first else second) result := by
  split
  · exact whenTrue ‹_›
  · exact whenFalse ‹_›

theorem guard {failing : Eval β} {rest : β → Eval α} {further : Eval α} {condition : Prop}
    [Decidable condition] (fails : R.Confines failing fun _ => False)
    (goesOn : ¬condition → R.Confines further result) :
    R.Confines (if condition then failing >>= rest else further) result :=
  ite (fun _ => fails.bind fun _ impossible => impossible.elim) goesOn

theorem problem (place : Location) (cause : Cause) :
    R.Confines (Eval.problem place cause : Eval α) result := throw _

theorem fault (found : Fault) : R.Confines (Eval.fault found : Eval α) result := throw _

theorem lift {outcome : Except Fault α} (yields : ∀ a, outcome = .ok a → result a) :
    R.Confines (Eval.lift outcome) result := by
  cases outcome with
  | ok a => exact pure (yields a rfl)
  | error found => exact fault found

theorem read {query : Store → Except Failure α}
    (same : ∀ store scopes, query (store.withScopes scopes) = query store)
    (yields : ∀ store a, R.Closed store → query store = .ok a → result a) :
    R.Confines (Eval.read query) result := by
  refine get_bind (fun session _ => ?_) fun session holds => ?_
  · rw [show (R.masked session).store = session.store.withScopes _ from rfl, same]
  · cases outcome : query session.store with
    | ok a => exact pure (yields session.store a holds.closed outcome)
    | error failure => exact throw failure

theorem ask {query : Store → α}
    (same : ∀ store scopes, query (store.withScopes scopes) = query store)
    (yields : ∀ store, R.Closed store → result (query store)) :
    R.Confines (Eval.ask query) result := by
  refine get_bind (fun session _ => ?_) fun session holds => ?_
  · rw [show (R.masked session).store = session.store.withScopes _ from rfl, same]
  · exact pure (yields session.store holds.closed)

theorem store_lift (query : Store → Except Fault α) {next : α → Eval β} {last : β → Prop}
    (same : ∀ store scopes, query (store.withScopes scopes) = query store)
    (then_ : ∀ store a, R.Closed store → query store = .ok a → R.Confines (next a) last) :
    R.Confines (do next (← Eval.lift (query (← get).store))) last := by
  refine get_bind (fun session _ => ?_) fun session holds => ?_
  · rw [show (R.masked session).store = session.store.withScopes _ from rfl, same]
  · refine (lift fun a returned => returned).bind fun a returned => ?_
    exact then_ session.store a holds.closed returned

theorem session_lift {query : Session → Except Fault α} {next : α → Eval β} {last : β → Prop}
    (same : ∀ session scopes, query (session.withScopes scopes) = query session)
    (then_ : ∀ a, R.Confines (next a) last) :
    R.Confines (do next (← Eval.lift (query (← get)))) last := by
  refine get_bind (fun session _ => ?_) fun session _ => ?_
  · rw [masked, same]
  · exact (lift fun _ _ => trivial).bind fun a (_ : True) => then_ a

theorem change {step : Store → α × Store} (writes : R.Writes step result) :
    R.Confines (Eval.change step) result := by
  intro session holds
  show (Except.ok (step (session.store.withScopes (R.replaced session.store.scopes))).1,
      { R.masked session with
        store := (step (session.store.withScopes (R.replaced session.store.scopes))).2 }) =
    (Except.ok (step session.store).1,
      R.masked { session with store := (step session.store).2 }) ∧
    R.Holds { session with store := (step session.store).2 } ∧
    ∀ a, Except.ok (step session.store).1 = .ok a → result a
  have unchanged := writes.unchanged holds.closed
  refine ⟨?_, ⟨?_, writes.keeps holds.closed⟩, fun a returned => ?_⟩
  · rw [writes.same holds.closed]
    simp only [masked, Session.withScopes, unchanged]
  · simpa only [unchanged] using holds.scopes
  · cases returned
    exact writes.yields holds.closed

theorem update {step : Store → Store}
    (same : ∀ store scopes, step (store.withScopes scopes) = (step store).withScopes scopes)
    (unchanged : ∀ store, (step store).scopes = store.scopes)
    (keeps : ∀ store, R.Closed store → R.Closed (step store)) :
    R.Confines (Eval.update step) fun _ => True := by
  refine modified (fun session _ => ?_) fun session holds => ⟨?_, keeps _ holds.closed⟩
  · simp only [masked, Session.withScopes, same, unchanged]
  · simpa only [unchanged] using holds.scopes

theorem keepingStore {step : Session → Session}
    (same : ∀ session scopes, step (session.withScopes scopes) = (step session).withScopes scopes)
    (store : ∀ session, (step session).store = session.store)
    (core : ∀ session, (step session).core = session.core)
    (module : ∀ session, (step session).module = session.module) :
    R.Confines (modify step) fun _ => True := by
  refine modified (fun session _ => ?_) fun session holds => ⟨?_, ?_⟩
  · rw [masked, same, masked, store]
  · rw [store, core, module]
    exact holds.scopes
  · rw [store]
    exact holds.closed

theorem get_set_bind {step : Session → Session} {next : Session → Eval β} {last : β → Prop}
    (same : ∀ session scopes, step (session.withScopes scopes) = (step session).withScopes scopes)
    (store : ∀ session, (step session).store = session.store)
    (core : ∀ session, (step session).core = session.core)
    (module : ∀ session, (step session).module = session.module)
    (blind : ∀ session scopes, next (session.withScopes scopes) = next session)
    (then_ : ∀ session, R.Confines (next session) last) :
    R.Confines (do
      let session ← get
      set (step session)
      next session) last := by
  intro session holds
  show (next (R.masked session)).runOn (step (R.masked session)) =
      (((next session).runOn (step session)).1, R.masked ((next session).runOn (step session)).2) ∧
    R.Holds ((next session).runOn (step session)).2 ∧
    ∀ a, ((next session).runOn (step session)).1 = .ok a → last a
  have kept : R.masked (step session) = step (R.masked session) := by
    rw [masked, masked, same, store]
  rw [masked, blind, ← masked, ← kept]
  refine then_ session (step session) ⟨?_, ?_⟩
  · rw [store, core, module]
    exact holds.scopes
  · rw [store]
    exact holds.closed

theorem emit (event : Event) : R.Confines (Eval.emit event) fun _ => True :=
  keepingStore (fun _ _ => rfl) (fun _ => rfl) (fun _ => rfl) fun _ => rfl

theorem log (severity : Severity) (source text : String) :
    R.Confines (Eval.log severity source text) fun _ => True := emit _

theorem recovering {place : Location} {action : Eval α} (confined : R.Confines action result) :
    R.Confines (Eval.recovering place action) result := by
  refine confined.tryCatch fun failure => ?_
  cases failure with
  | fault found => exact ite (fun _ => problem _ _) fun _ => throw _
  | problem found => exact throw _
  | tooDeep => exact throw _

theorem mapM {items : List β} {action : β → Eval α}
    (each : ∀ item ∈ items, R.Confines (action item) result) :
    R.Confines (items.mapM action) fun found => ∀ a ∈ found, result a := by
  induction items with
  | nil => exact pure fun a member => nomatch member
  | cons first rest ih =>
      rw [List.mapM_cons]
      refine (each first List.mem_cons_self).bind fun a yields => ?_
      refine (ih fun item member => each item (List.mem_cons_of_mem _ member)).bind
        fun found all => ?_
      exact pure fun b member => (List.mem_cons.mp member).elim (fun same => same ▸ yields) (all b)

theorem forM {items : List β} {action : β → Eval Unit}
    (each : ∀ item ∈ items, R.Confines (action item) fun _ => True) :
    R.Confines (items.forM action) fun _ => True := by
  induction items with
  | nil => exact pure trivial
  | cons first rest ih =>
      exact (each first List.mem_cons_self).bind fun _ _ =>
        ih fun item member => each item (List.mem_cons_of_mem _ member)

theorem forIn {items : List β} {body : β → PUnit → Eval (ForInStep PUnit)}
    (each : ∀ item, R.Confines (body item ⟨⟩) fun _ => True) :
    R.Confines (forIn items PUnit.unit body) fun _ => True := by
  induction items with
  | nil => exact pure trivial
  | cons first rest ih =>
      rw [List.forIn_cons]
      refine (each first).bind fun next _ => ?_
      cases next with
      | done => exact pure trivial
      | yield => exact ih

theorem foldlM {items : List β} {action : α → β → Eval α} {start : α} (holds : result start)
    (each : ∀ a, ∀ item ∈ items, result a → R.Confines (action a item) result) :
    R.Confines (items.foldlM action start) result := by
  induction items generalizing start with
  | nil => exact pure holds
  | cons first rest ih =>
      rw [List.foldlM_cons]
      exact (each start first List.mem_cons_self holds).bind fun a yields =>
        ih yields fun b item member => each b item (List.mem_cons_of_mem _ member)

end Confines

end Region

end ShellLisp
