import ShellLisp.Evaluation.Followed
import ShellLisp.Proofs.Parametric.Evaluation

/-!
# Runs in twin sessions

Two sessions are twins when nothing but the bodies of their functions differs, and these are alike.
One action mirrors another when, run in twin sessions, both end alike and leave twins behind, unless
the first goes too deep. All along, a library function stays the function that it is. The rules say
which actions mirror each other, put together from others or made of one step on a session.
-/

namespace ShellLisp

namespace Store

def withBodies (store : Store) (bodies : Nat → Expr) : Store :=
  { store with
    closures := store.closures.mapIdx fun ref closure => { closure with body := bodies ref } }

def bodyAt? (store : Store) (ref : Nat) : Option Expr := store.closures[ref]?.map (·.body)

theorem getElem?_withBodies (store : Store) (bodies : Nat → Expr) (ref : Nat) :
    (store.withBodies bodies).closures[ref]? =
      store.closures[ref]?.map fun closure => { closure with body := bodies ref } := by
  simp [withBodies]

end Store

namespace Session

def withBodies (session : Session) (bodies : Nat → Expr) : Session :=
  { session with store := session.store.withBodies bodies }

/-- The same session but for the bodies of functions, which are alike. -/
def Twin (like : Expr → Expr → Prop) (session other : Session) : Prop :=
  ∃ bodies, other = session.withBodies bodies ∧
    ∀ ref body, session.store.bodyAt? ref = some body → like body (bodies ref)

theorem Twin.refl {like : Expr → Expr → Prop} (same : ∀ e, like e e) (session : Session) :
    session.Twin like session := by
  let bodies (ref : Nat) : Expr := (session.store.bodyAt? ref).getD default
  refine ⟨bodies, ?_, fun ref body found => ?_⟩
  · have unchanged : session.store.closures = (session.store.withBodies bodies).closures := by
      refine Array.ext_getElem? fun ref => ?_
      rw [Store.getElem?_withBodies]
      cases found : session.store.closures[ref]? with
      | none => rfl
      | some closure => simp [bodies, Store.bodyAt?, found]
    cases session
    simp only [withBodies, Store.withBodies] at unchanged ⊢
    rw [← unchanged]
  · simpa [bodies, found] using same body

def hidden (session : Session) (bodies : Nat → Expr) : Hidden where
  body := bodies
  scope ref := ((session.store.closures[ref]?).map (·.scope)).getD 0
  scopes := session.store.scopes
  core := session.core
  module := session.module
  events := session.events

theorem withBodies_eq {session after : Session} (same : session.SameHidden after)
    (bodies : Nat → Expr) :
    after.withBodies bodies = after.withHidden (session.hidden bodies) := by
  have closures : (after.store.withBodies bodies).closures =
      (after.store.withHidden (session.hidden bodies)).closures := by
    refine Array.ext_getElem? fun ref => ?_
    rw [Store.getElem?_withBodies, Store.getElem?_withHidden]
    have alike := same.closures ref
    unfold Store.hiddenAt? at alike
    cases found : after.store.closures[ref]? with
    | none => rfl
    | some closure =>
        rw [found] at alike
        obtain ⟨old, there, kept⟩ := Option.map_eq_some_iff.mp alike.symm
        simp only [hidden, there, Option.map_some, Option.getD_some, (Prod.mk.inj kept).2]
  obtain ⟨-, scopes, core, module, events⟩ := same
  show _ = { after with
    store := { after.store with
      closures := (after.store.withHidden (session.hidden bodies)).closures
      scopes := session.store.scopes }
    core := session.core
    module := session.module
    events := session.events }
  rw [← closures, ← scopes, ← core, ← module, ← events]
  rfl

theorem Twin.events {like : Expr → Expr → Prop} {session other : Session}
    (twins : session.Twin like other) : other.events = session.events := by
  obtain ⟨bodies, rfl, -⟩ := twins
  rfl

theorem Twin.followed {like : Expr → Expr → Prop} {α : Type} {outcome : Except Failure α}
    {session other : Session} (twins : session.Twin like other)
    (followed : Followed (outcome, session)) : Followed (outcome, other) := by
  obtain ⟨bodies, rfl, -⟩ := twins
  exact ⟨followed.outcome, followed.settled⟩

end Session

namespace Failure

def IsDepth : Failure → Prop
  | .tooDeep => True
  | .problem found => found.cause = .tooDeep
  | .fault _ => False

theorem isDepth_tooDeep : tooDeep.IsDepth := trivial

end Failure

def GaveUp {α : Type} (outcome : Except Failure α) : Prop :=
  ∃ failure, outcome = .error failure ∧ failure.IsDepth

/-- A step on a session to which the bodies of functions make no difference. -/
structure Blind {α : Type} (step : Session → α × Session) : Prop where
  same : ∀ (session : Session) bodies,
    step (session.withBodies bodies) = ((step session).1, (step session).2.withBodies bodies)
  bodies : ∀ (session : Session) ref,
    (step session).2.store.bodyAt? ref = session.store.bodyAt? ref
  functions : ∀ session : Session, session.store.KeepsFunctions (step session).2.store

section
variable {α β : Type} (like : Expr → Expr → Prop) (result : α → β → Prop)

/-- How two runs from twin sessions end. -/
inductive EndAlike (before : Session) :
    Except Failure α × Session → Except Failure β × Session → Prop
  | gaveUp {failure : Failure} {after : Session} {second : Except Failure β × Session}
      (depth : failure.IsDepth) : EndAlike before (.error failure, after) second
  | failed {failure : Failure} {after other : Session} (twins : after.Twin like other)
      (kept : before.store.KeepsFunctions after.store) :
      EndAlike before (.error failure, after) (.error failure, other)
  | returned {a : α} {b : β} {after other : Session} (same : result a b)
      (twins : after.Twin like other) (kept : before.store.KeepsFunctions after.store) :
      EndAlike before (.ok a, after) (.ok b, other)

def Mirrors (first : Eval α) (second : Eval β) : Prop :=
  ∀ session other : Session, session.Twin like other →
    EndAlike like result session (first.runOn session) (second.runOn other)

abbrev Mirrored (action : Eval α) : Prop := Mirrors like Eq action action

end

variable {α β γ δ : Type} {like : Expr → Expr → Prop} {result : α → β → Prop} {last : γ → δ → Prop}

theorem EndAlike.after {before between : Session} {first : Except Failure α × Session}
    {second : Except Failure β × Session}
    (earlier : before.store.KeepsFunctions between.store)
    (ends : EndAlike like result between first second) :
    EndAlike like result before first second := by
  cases ends with
  | gaveUp depth => exact .gaveUp depth
  | failed twins kept => exact .failed twins (earlier.trans kept)
  | returned same twins kept => exact .returned same twins (earlier.trans kept)

namespace Blind

/-- For most steps both hold by definition. -/
theorem of_functions {step : Session → α × Session}
    (same : ∀ (session : Session) bodies, step (session.withBodies bodies) =
      ((step session).1, (step session).2.withBodies bodies))
    (kept : ∀ session, (step session).2.store.closures = session.store.closures ∧
      (step session).2.store.libraries = session.store.libraries) : Blind step where
  same := same
  bodies session ref := by rw [Store.bodyAt?, (kept session).1, Store.bodyAt?]
  functions session ref function found := by rwa [Store.functionAt?, (kept session).2]

theorem twin {step : Session → α × Session} (blind : Blind step) {session : Session}
    {bodies : Nat → Expr}
    (alike : ∀ ref body, session.store.bodyAt? ref = some body → like body (bodies ref)) :
    (step session).2.Twin like ((step session).2.withBodies bodies) :=
  ⟨bodies, rfl, fun ref body found => alike ref body (blind.bodies session ref ▸ found)⟩

theorem andThen {first : Session → α × Session} {second : α → Session → β × Session}
    (blind : Blind first) (further : ∀ a, Blind (second a)) :
    Blind fun session => second (first session).1 (first session).2 where
  same session bodies := by rw [blind.same, (further _).same]
  bodies session ref := by rw [(further _).bodies, blind.bodies]
  functions session := (blind.functions session).trans ((further _).functions _)

end Blind

theorem Unseeing.blind {step : Session → α × Session} (unseeing : Unseeing step) : Blind step where
  same session bodies := by
    rw [Session.withBodies_eq (.refl session), unseeing.same,
      Session.withBodies_eq (unseeing.kept session)]
  bodies session ref := by
    have same := congrArg (Option.map Prod.fst) ((unseeing.kept session).closures ref)
    simpa [Store.hiddenAt?, Store.bodyAt?, Function.comp_def] using same
  functions := unseeing.functions

namespace Mirrors

/-! ## Rules for control -/

theorem mono {first : Eval α} {second : Eval β} {weaker : α → β → Prop}
    (mirrors : Mirrors like result first second) (weaken : ∀ a b, result a b → weaker a b) :
    Mirrors like weaker first second := by
  intro session other twins
  have ends := mirrors session other twins
  generalize first.runOn session = end₁ at ends ⊢
  generalize second.runOn other = end₂ at ends ⊢
  cases ends with
  | gaveUp depth => exact .gaveUp depth
  | failed twins kept => exact .failed twins kept
  | returned same twins kept => exact .returned (weaken _ _ same) twins kept

theorem pure {a : α} {b : β} (same : result a b) :
    Mirrors like result (Pure.pure a) (Pure.pure b) :=
  fun session _ twins => .returned same twins (.refl session.store)

theorem throw (failure : Failure) :
    Mirrors like result (throw failure : Eval α) (throw failure : Eval β) :=
  fun session _ twins => .failed twins (.refl session.store)

theorem gaveUp {first : Eval α} {second : Eval β} {failure : Failure} (depth : failure.IsDepth)
    (fails : ∀ session, ∃ after, first.runOn session = (.error failure, after)) :
    Mirrors like result first second := by
  intro session other twins
  obtain ⟨after, same⟩ := fails session
  rw [same]
  exact .gaveUp depth

theorem bindAs {first : Eval α} {second : Eval β} {next : α → Eval γ} {next' : β → Eval δ}
    (mirrors : Mirrors like result first second)
    (then_ : ∀ a b, result a b → Mirrors like last (next a) (next' b)) :
    Mirrors like last (first >>= next) (second >>= next') := by
  intro session other twins
  have ends := mirrors session other twins
  rw [Eval.runOn_bind, Eval.runOn_bind]
  generalize first.runOn session = end₁ at ends ⊢
  generalize second.runOn other = end₂ at ends ⊢
  cases ends with
  | gaveUp depth => exact .gaveUp depth
  | failed twins kept => exact .failed twins kept
  | returned same twins kept => exact (then_ _ _ same _ _ twins).after kept

theorem bind {first second : Eval α} {next : α → Eval γ} {next' : α → Eval δ}
    (mirrors : Mirrors like Eq first second)
    (then_ : ∀ a, Mirrors like last (next a) (next' a)) :
    Mirrors like last (first >>= next) (second >>= next') :=
  mirrors.bindAs fun a _ same => same ▸ then_ a

theorem stop (failure : Failure) {next : γ → Eval α} {next' : γ → Eval β} :
    Mirrors like result (MonadExcept.throw failure >>= next)
      (MonadExcept.throw failure >>= next') :=
  fun session _ twins => .failed twins (.refl session.store)

/-- A handler must not make a result of an evaluation that went too deep. -/
theorem tryCatch {first : Eval α} {second : Eval β} {handler : Failure → Eval α}
    {handler' : Failure → Eval β} (mirrors : Mirrors like result first second)
    (handles : ∀ failure, Mirrors like result (handler failure) (handler' failure))
    (passes : ∀ failure, failure.IsDepth → ∀ session, GaveUp ((handler failure).runOn session).1) :
    Mirrors like result (tryCatch first handler) (tryCatch second handler') := by
  intro session other twins
  have ends := mirrors session other twins
  rw [Eval.runOn_tryCatch, Eval.runOn_tryCatch]
  generalize first.runOn session = end₁ at ends ⊢
  generalize second.runOn other = end₂ at ends ⊢
  cases ends with
  | @gaveUp failure after second depth =>
      obtain ⟨found, outcome, still⟩ := passes failure depth after
      cases run : (handler failure).runOn after
      simp only [run] at outcome ⊢
      subst outcome
      exact .gaveUp still
  | failed twins kept => exact (handles _ _ _ twins).after kept
  | returned same twins kept => exact .returned same twins kept

theorem ite {condition : Prop} [Decidable condition] {first other : Eval α} {second other' : Eval β}
    (whenTrue : condition → Mirrors like result first second)
    (whenFalse : ¬condition → Mirrors like result other other') :
    Mirrors like result (if condition then first else other)
      (if condition then second else other') := by
  split
  · exact whenTrue ‹_›
  · exact whenFalse ‹_›

theorem problem (place : Location) (cause : Cause) :
    Mirrors like result (Eval.problem place cause : Eval α) (Eval.problem place cause : Eval β) :=
  throw _

theorem recovering {place : Location} {first second : Eval α}
    (mirrors : Mirrors like Eq first second) :
    Mirrors like Eq (Eval.recovering place first) (Eval.recovering place second) := by
  refine mirrors.tryCatch (fun failure => ?_) fun failure depth session => ?_
  · cases failure with
    | fault found => exact ite (fun _ => problem _ _) fun _ => throw _
    | problem found => exact throw _
    | tooDeep => exact throw _
  · cases failure with
    | fault found => exact depth.elim
    | problem found => exact ⟨_, rfl, depth⟩
    | tooDeep => exact ⟨_, rfl, depth⟩

/-! ## Rules for steps on a session -/

theorem get_bind {next : Session → Eval α} {next' : Session → Eval β}
    (then_ : ∀ session bodies, Mirrors like result (next session)
      (next' (session.withBodies bodies))) :
    Mirrors like result (get >>= next) (get >>= next') := by
  rintro session _ ⟨bodies, rfl, alike⟩
  exact then_ session bodies session _ ⟨bodies, rfl, alike⟩

theorem modifyGet {step : Session → α × Session} (blind : Blind step) :
    Mirrored like (modifyGet step : Eval α) := by
  rintro session _ ⟨bodies, rfl, alike⟩
  show EndAlike like Eq session (.ok (step session).1, (step session).2)
    (.ok (step (session.withBodies bodies)).1, (step (session.withBodies bodies)).2)
  rw [blind.same]
  exact .returned rfl (blind.twin alike) (blind.functions session)

theorem modify {step : Session → Session}
    (blind : Blind fun session => (PUnit.unit, step session)) :
    Mirrored like (modify step : Eval PUnit) := modifyGet blind

theorem get_set_bind {step : Session → Session} {next : Session → Eval α}
    {next' : Session → Eval β} (blind : Blind fun session => (PUnit.unit, step session))
    (then_ : ∀ session bodies, Mirrors like result (next session)
      (next' (session.withBodies bodies))) :
    Mirrors like result
      (do
        let session ← get
        set (step session)
        next session)
      (do
        let session ← get
        set (step session)
        next' session) := by
  rintro session _ ⟨bodies, rfl, alike⟩
  have moved : step (session.withBodies bodies) = (step session).withBodies bodies :=
    congrArg Prod.snd (blind.same session bodies)
  have ends := then_ session bodies _ _ (blind.twin alike)
  rw [← moved] at ends
  exact ends.after (blind.functions session)

theorem ask {query : Store → α}
    (same : ∀ store bodies, query (store.withBodies bodies) = query store) :
    Mirrored like (Eval.ask query) := by
  refine get_bind fun session bodies => ?_
  rw [show (session.withBodies bodies).store = session.store.withBodies bodies from rfl, same]
  exact pure rfl

theorem change {step : Store → α × Store}
    (blind : Blind (Session.onStore step)) :
    Mirrored like (Eval.change step) := modifyGet blind

theorem update {step : Store → Store}
    (blind : Blind fun session => (PUnit.unit, { session with store := step session.store })) :
    Mirrored like (Eval.update step) := modifyGet blind

theorem newScope (parent : Nat) :
    Mirrored like (Eval.newScope parent) :=
  change (.of_functions (fun _ _ => rfl) fun _ => ⟨rfl, rfl⟩)

theorem define (scope : Nat) (name : String) (value : Value) :
    Mirrored like (Eval.define scope name value) :=
  update (.of_functions (fun _ _ => rfl) fun _ => ⟨rfl, rfl⟩)

theorem lookup (scope : Nat) (name : String) :
    Mirrored like (Eval.lookup scope name) := ask fun _ _ => rfl

/-! ## Rules for rows -/

theorem mapMAs {R : α → β → Prop} {items : List α} {others : List β} {action : α → Eval γ}
    {action' : β → Eval δ} (alike : List.Forall₂ R items others)
    (each : ∀ a b, R a b → Mirrors like last (action a) (action' b)) :
    Mirrors like (List.Forall₂ last) (items.mapM action) (others.mapM action') := by
  induction alike with
  | nil => exact pure .nil
  | cons same _ ih =>
      rw [List.mapM_cons, List.mapM_cons]
      refine (each _ _ same).bindAs fun _ _ first => ?_
      exact ih.bindAs fun _ _ rest => pure (.cons first rest)

theorem mapM {R : α → β → Prop} {items : List α} {others : List β} {action : α → Eval γ}
    {action' : β → Eval γ} (alike : List.Forall₂ R items others)
    (each : ∀ a b, R a b → Mirrors like Eq (action a) (action' b)) :
    Mirrors like Eq (items.mapM action) (others.mapM action') :=
  (mapMAs alike each).mono fun _ _ same => List.forall₂_eq_eq_eq ▸ same

theorem forM {R : α → β → Prop} {items : List α} {others : List β} {action : α → Eval PUnit}
    {action' : β → Eval PUnit} (alike : List.Forall₂ R items others)
    (each : ∀ a b, R a b → Mirrors like Eq (action a) (action' b)) :
    Mirrors like Eq (items.forM action) (others.forM action') := by
  induction alike with
  | nil => exact pure rfl
  | cons same _ ih => exact (each _ _ same).bind fun _ => ih

theorem forIn {items : List α} {body : α → PUnit → Eval (ForInStep PUnit)}
    (each : ∀ a, Mirrored like (body a ⟨⟩)) :
    Mirrored like (forIn items PUnit.unit body) := by
  induction items with
  | nil => exact pure rfl
  | cons first rest ih =>
      rw [List.forIn_cons]
      refine (each first).bind fun next => ?_
      cases next with
      | done => exact pure rfl
      | yield => exact ih

end Mirrors

/-! ## The library in twin sessions -/

def Congruence.mirrors (like : Expr → Expr → Prop) : Congruence where
  rel := Mirrors like Eq
  placed := Eq
  pure _ := .pure rfl
  throw := .throw
  problem := by
    rintro _ place _ rfl cause
    exact .problem place cause
  bind := .bind
  recovering := by
    rintro _ _ _ _ _ rfl mirrors
    exact mirrors.recovering
  cleaning := by
    intro _ _ _ clean _ mirrors cleans total
    refine mirrors.tryCatch (fun failure => cleans.bind fun _ => .throw failure) ?_
    intro failure depth session
    obtain ⟨after, done⟩ := total session
    exact ⟨failure, by rw [Eval.runOn_bind_ok done]; rfl, depth⟩
  modifyGet unseeing := .modifyGet unseeing.blind
  get_bind then_ := .get_bind fun session bodies => by
    rw [Session.withBodies_eq (.refl session)]
    exact then_ session _
  get_set_bind unseeing then_ := .get_set_bind unseeing.blind fun session bodies => by
    rw [Session.withBodies_eq (.refl session)]
    exact then_ session _
  emit _ := .modify (.of_functions (fun _ _ => rfl) fun _ => ⟨rfl, rfl⟩)
  reported := by
    rintro place _ rfl text
    exact .modify (.of_functions (fun _ _ => rfl) fun _ => ⟨rfl, rfl⟩)

/-! ## Commands of an interactive session -/

namespace Blind

theorem installCommands (entries : List (String × SessionCommand)) :
    Blind fun session : Session => (PUnit.unit, entries.foldl
      (fun found entry => found.defineLibrary entry.1 (.session entry.2)) session) := by
  induction entries with
  | nil => exact (Unseeing.result _).blind
  | cons entry rest ih =>
      have defined : Blind fun session : Session =>
          (PUnit.unit, session.defineLibrary entry.1 (.session entry.2)) :=
        (Unseeing.newLibrary ⟨.session entry.2, .string entry.1⟩).blind.andThen fun value =>
          (show Blind fun session : Session => (PUnit.unit, session.define entry.1 value) from
            .of_functions (fun _ _ => rfl) fun _ => ⟨rfl, rfl⟩)
      exact defined.andThen fun _ => ih

end Blind

theorem SessionCommand.call_mirrored {place : Location} {arguments : List Value}
    (command : SessionCommand) : Mirrored like (command.call place arguments) := by
  have none (callee : String) : Mirrored like (Arguments.empty callee place arguments) :=
    Arguments.empty_related (C := .mirrors like) rfl
  cases command with
  | exit =>
      refine .bind (.modify ?_) fun _ => .pure rfl
      exact .of_functions (fun _ _ => rfl) fun _ => ⟨rfl, rfl⟩
  | clearResults =>
      refine .bind (none _) fun _ => .bind (.modify ?_) fun _ => .pure rfl
      exact .of_functions (fun _ _ => rfl) fun _ => ⟨rfl, rfl⟩
  | clearDefinitions =>
      have emptied : Blind fun session : Session =>
          (PUnit.unit, { session.clear with results := 0 }) :=
        .of_functions (fun _ _ => rfl) fun _ => ⟨rfl, rfl⟩
      refine .bind (none _) fun _ => .bind (.modify ?_) fun _ => .pure rfl
      exact emptied.andThen fun _ => .installCommands sessionCommands
  | listDefinitions =>
      refine .bind (none _) fun _ => .get_bind fun session bodies => ?_
      refine .bind (.forIn fun name => ?_) fun _ => .pure rfl
      refine .bind (.modify ?_) fun _ => .pure rfl
      exact .of_functions (fun _ _ => rfl) fun _ => ⟨rfl, rfl⟩

/-! ## Engines -/

/-- What the first engine does, the second mirrors, also with an expression that is alike. -/
structure Coupled (like : Expr → Expr → Prop) (first second : Engine) : Prop where
  interpret : ∀ {e e'}, like e e' → ∀ scope,
    Mirrors like Eq (first.interpret e scope) (second.interpret e' scope)
  apply : ∀ callee arguments place,
    Mirrors like Eq (first.apply callee arguments place) (second.apply callee arguments place)
  advance : ∀ ref, Mirrors like Eq (first.advance ref) (second.advance ref)
  evaluate : ∀ source scope,
    Mirrors like Eq (first.evaluate source scope) (second.evaluate source scope)
  patience : first.patience = second.patience

theorem Coupled.related {first second : Engine} (coupled : Coupled like first second) :
    first.Related (.mirrors like) second where
  apply := by
    rintro callee arguments place _ rfl -
    exact coupled.apply callee arguments place
  advance := coupled.advance
  patience := coupled.patience

end ShellLisp
