import ShellLisp.Evaluation.Followed
import ShellLisp.Proofs.Scoping.Reachability
import ShellLisp.Proofs.Scoping.WriteDiscipline

/-!
# Scopes that a call cannot see

A function sees its arguments, the scopes around its definition, and what these lead to. The
bindings of every other local scope, its callers' among them, make no difference to a call: in two
sessions that differ in them alone, a call that is followed has the same outcome and the same effects,
and leaves them as they were. What leads to a scope may be anything that a program can ask for: also
the name of a function of the library, which programs can replace.
-/

namespace ShellLisp

namespace Session

/-- Two sessions that differ in nothing but the bindings of hidden scopes. -/
structure AgreeExcept (hidden : Nat → Prop) (first second : Session) : Prop where
  rest : second = first.withScopes second.store.scopes
  next : second.store.scopes.next = first.store.scopes.next
  parent : ∀ scope, second.store.scopes.parentLink scope = first.store.scopes.parentLink scope
  module : ∀ scope, second.store.scopes.module? scope = first.store.scopes.module? scope
  bindings : ∀ scope, ¬hidden scope →
    second.store.scopes.bindings scope = first.store.scopes.bindings scope

/-- What a call of a function can get at: what the scopes around its definition and its arguments
lead to. The library is at the end of every chain of scopes. -/
def Sees (session : Session) (function : Closure) (arguments : List Value) (scope : Nat) : Prop :=
  (∃ around, (around = function.scope ∨ around = session.core) ∧
    session.store.Reaches (.scope around) (.scope scope)) ∨
  ∃ v ∈ function.parameters :: function.name :: arguments,
    session.store.Reaches (.value v) (.scope scope)

/-- A scope that is neither the library nor where definitions go. -/
structure IsLocal (session : Session) (scope : Nat) : Prop where
  present : scope < session.store.scopes.next
  not_core : scope ≠ session.core
  not_module : scope ≠ session.module

end Session

/-- What stays as it is while a call runs: the hidden scopes, and that the others do not lead to
them. -/
structure KeptApart (base : Session) (hidden : Nat → Prop) (module : Nat) (scopes : Scopes Value) :
    Prop where
  older : base.store.scopes.next ≤ scopes.next
  module_shown : ¬hidden module
  hidden_kept : ∀ scope, hidden scope → scopes.bindings scope = base.store.scopes.bindings scope
  binding : ∀ scope, base.store.Avoids hidden (.scope scope) →
    ∀ entry ∈ scopes.bindings scope, base.store.Avoids hidden (.value entry.2)
  parent : ∀ scope, base.store.Avoids hidden (.scope scope) →
    ∀ above, above < scope → scopes.parentLink scope = some above →
      base.store.Avoids hidden (.scope above)
  module : ∀ scope, base.store.Avoids hidden (.scope scope) →
    ∀ m, scopes.module? scope = some m → base.store.Avoids hidden (.scope m)

namespace KeptApart
variable {base : Session} {hidden : Nat → Prop} {module : Nat} {scopes : Scopes Value}

theorem avoids_new (locals : ∀ scope, hidden scope → scope < base.store.scopes.next) {scope : Nat}
    (new : base.store.scopes.next ≤ scope) : base.store.Avoids hidden (.scope scope) := by
  have absent : base.store.scopes.get? scope = none := Array.getElem?_eq_none new
  refine .of_steps (fun other inside same => ?_) fun next leads => ?_
  · cases same
    exact absurd (locals scope inside) (Nat.not_lt_of_le new)
  · cases leads with
    | binding bound =>
        unfold Scopes.bindings at bound
        rw [absent] at bound
        exact nomatch bound
    | parent link =>
        have linked := Scopes.parentLink_of_parent? link
        unfold Scopes.parentLink at linked
        rw [absent] at linked
        cases linked
    | module link =>
        unfold Scopes.module? at link
        rw [absent] at link
        cases link

theorem start (shown : ¬hidden base.module) :
    KeptApart base hidden base.module base.store.scopes where
  older := Nat.le_refl _
  module_shown := shown
  hidden_kept _ _ := rfl
  binding _ avoids _ bound := avoids.step (.binding bound)
  parent _ avoids _ older link :=
    avoids.step (.parent ((Scopes.parent?_eq_some older).mpr link))
  module _ avoids _ link := avoids.step (.module link)

theorem modify (apart : KeptApart base hidden module scopes) {holder : Nat}
    {change : Bindings Value → Bindings Value} (shown : ¬hidden holder)
    (keeps : base.store.Avoids hidden (.scope holder) →
      ∀ entry ∈ change (scopes.bindings holder), base.store.Avoids hidden (.value entry.2)) :
    KeptApart base hidden module (scopes.modify holder change) where
  older := by rw [Scopes.next_modify]; exact apart.older
  module_shown := apart.module_shown
  hidden_kept scope inside := by
    have other : scope ≠ holder := fun same => shown (same ▸ inside)
    rw [Scopes.bindings_modify_other other]
    exact apart.hidden_kept scope inside
  binding scope avoids := by
    rcases Scopes.bindings_modify scopes holder change scope with same | ⟨rfl, same⟩
    · rw [same]
      exact apart.binding scope avoids
    · rw [same]
      exact keeps avoids
  parent scope := by rw [Scopes.parentLink_modify]; exact apart.parent scope
  module scope := by rw [Scopes.module?_modify]; exact apart.module scope

theorem push (apart : KeptApart base hidden module scopes) {parent own : Option Nat}
    (avoids : ∀ above, parent = some above → base.store.Avoids hidden (.scope above))
    (owned : ∀ m, own = some m → base.store.Avoids hidden (.scope m)) :
    KeptApart base hidden module (scopes.push parent own) where
  older := by
    rw [Scopes.next_push]
    exact Nat.le_succ_of_le apart.older
  module_shown := apart.module_shown
  hidden_kept scope inside := by
    rw [Scopes.bindings_push]
    exact apart.hidden_kept scope inside
  binding scope visible := by
    rw [Scopes.bindings_push]
    exact apart.binding scope visible
  parent scope visible above older link := by
    rw [Scopes.parentLink_push] at link
    split at link
    · exact avoids above link
    · exact apart.parent scope visible above older link
  module scope visible m link := by
    rw [Scopes.module?_push] at link
    split at link
    · cases own with
      | some m' => exact owned m link
      | none =>
          obtain ⟨above, same, linked⟩ := Option.bind_eq_some_iff.mp link
          exact apart.module above (avoids above same) m linked
    · exact apart.module scope visible m link

theorem lookup (apart : KeptApart base hidden module scopes) {scope : Nat} {name : String}
    {v : Value} (visible : base.store.Avoids hidden (.scope scope))
    (found : scopes.lookup? scope name = some v) : base.store.Avoids hidden (.value v) := by
  induction scope using Nat.strongRecOn with
  | _ scope ih =>
      rw [Scopes.lookup?] at found
      split at found
      · rename_i bound
        cases found
        obtain ⟨before, after, same, -⟩ := List.lookup_eq_some_iff.mp bound
        exact apart.binding scope visible (name, v) (by simp [same])
      · split at found
        · cases found
        · rename_i parent older link
          have above := apart.parent scope visible parent older (Scopes.parentLink_of_parent? link)
          exact ih parent older above found

theorem lookup_substitute [DecidablePred hidden] (apart : KeptApart base hidden module scopes)
    (others : Nat → Bindings Value) {scope : Nat} (name : String)
    (visible : base.store.Avoids hidden (.scope scope)) :
    (scopes.substitute hidden others).lookup? scope name = scopes.lookup? scope name := by
  induction scope using Nat.strongRecOn with
  | _ scope ih =>
      rw [Scopes.lookup?, Scopes.lookup?, Scopes.bindings_substitute visible.not_hidden,
        Scopes.parent?_congr (Scopes.parentLink_substitute scope)]
      split
      · rfl
      · split
        · rfl
        · rename_i parent older link
          exact ih parent older
            (apart.parent scope visible parent older (Scopes.parentLink_of_parent? link))

theorem findWithin?_substitute [DecidablePred hidden] (apart : KeptApart base hidden module scopes)
    (others : Nat → Bindings Value) (last : Option Nat) {scope : Nat} (name : String)
    (visible : base.store.Avoids hidden (.scope scope)) :
    (scopes.substitute hidden others).findWithin? last scope name =
      scopes.findWithin? last scope name := by
  induction scope using Nat.strongRecOn with
  | _ scope ih =>
      rw [Scopes.findWithin?, Scopes.findWithin?, Scopes.bindings_substitute visible.not_hidden,
        Scopes.parent?_congr (Scopes.parentLink_substitute scope)]
      split
      · rfl
      · split
        · rfl
        · split
          · rfl
          · rename_i parent older link
            exact ih parent older
              (apart.parent scope visible parent older (Scopes.parentLink_of_parent? link))

theorem findWithin?_avoids (apart : KeptApart base hidden module scopes) {last : Option Nat}
    {scope holder : Nat} {name : String} (visible : base.store.Avoids hidden (.scope scope))
    (found : scopes.findWithin? last scope name = some holder) :
    base.store.Avoids hidden (.scope holder) :=
  Scopes.findWithin?_has (fun scope => base.store.Avoids hidden (.scope scope))
    (fun below above seen _ older link => apart.parent below seen above older link) scope holder
    visible found

end KeptApart

/-- What a call can see in a session from which some scopes are hidden. In the other run the hidden
scopes have other bindings. -/
def Session.concealing (base : Session) (hidden : Nat → Prop) [DecidablePred hidden]
    (others : Nat → Bindings Value)
    (locals : ∀ scope, hidden scope → scope < base.store.scopes.next) : Region where
  value v := base.store.Avoids hidden (.value v)
  scope scope := base.store.Avoids hidden (.scope scope)
  target scope := base.store.Avoids hidden (.scope scope)
  function _ := True
  admits core module scopes := core = base.core ∧ KeptApart base hidden module scopes
  replaced := Scopes.substitute hidden others
  null := .of_empty rfl fun _ => Value.noConfusion
  bool _ := .of_empty rfl fun _ => Value.noConfusion
  number _ := .of_empty rfl fun _ => Value.noConfusion
  string _ := .of_empty rfl fun _ => Value.noConfusion
  complex := .of_empty rfl fun _ => Value.noConfusion
  tuple items := ⟨fun avoids item member => avoids.step (.content member), fun all =>
    .of_value all fun _ _ => Value.noConfusion⟩
  lookup admitted visible found := admitted.2.lookup visible found
  lookup_replaced admitted visible name := admitted.2.lookup_substitute others name visible
  module_target admitted visible link := admitted.2.module _ visible _ link
  module_replaced _ _ := Scopes.module?_substitute _
  next_replaced _ := Scopes.next_substitute
  pushChild := by
    rintro _ _ scopes parent ⟨rfl, apart⟩ visible
    have new := KeptApart.avoids_new locals apart.older
    refine ⟨⟨rfl, apart.push ?_ fun m same => nomatch same⟩, new, new,
      Scopes.substitute_push new.not_hidden _ _⟩
    intro above same
    cases same
    exact visible
  define := by
    rintro _ _ scopes holder v ⟨rfl, apart⟩ visible inside name
    refine ⟨⟨rfl, apart.modify visible.not_hidden fun _ entry member => ?_⟩,
      Scopes.substitute_modify visible.not_hidden _⟩
    rcases Bindings.mem_define member with old | new
    · exact apart.binding holder visible entry old
    · exact new ▸ inside
  delete := by
    rintro _ _ scopes found ⟨rfl, apart⟩ visible name
    unfold Scopes.delete
    rw [Scopes.module?_substitute, apart.findWithin?_substitute others _ name visible]
    cases there : scopes.findWithin? (scopes.module? found) found name with
    | none => exact ⟨⟨rfl, apart⟩, rfl⟩
    | some holder =>
        have held := apart.findWithin?_avoids visible there
        refine ⟨⟨rfl, apart.modify held.not_hidden fun _ entry member => ?_⟩,
          Scopes.substitute_modify held.not_hidden _⟩
        exact apart.binding holder held entry (List.mem_filter.mp member).1

namespace Session
variable {first second : Session} {hidden : Nat → Prop} [DecidablePred hidden]

section
variable {others : Nat → Bindings Value}
  {locals : ∀ scope, hidden scope → scope < first.store.scopes.next}

theorem concealing_cursor {cursor : Cursor}
    (avoids : ∀ v ∈ cursor.values, first.store.Avoids hidden (.value v)) :
    (first.concealing hidden others locals).cursor cursor := by
  cases cursor with
  | items rest => exact avoids
  | elements | pairs | keys | sequence => exact avoids _ List.mem_cons_self
  | chars | ended => trivial

theorem concealing_state {state : SequenceState}
    (avoids : ∀ v ∈ state.values, first.store.Avoids hidden (.value v)) :
    (first.concealing hidden others locals).state state := by
  cases state with
  | counting | stepping | finished => trivial
  | mapped | filtered =>
      exact ⟨avoids _ List.mem_cons_self, avoids _ (List.mem_cons_of_mem _ List.mem_cons_self)⟩
  | flattened source function place inner =>
      refine ⟨avoids _ List.mem_cons_self, avoids _ (List.mem_cons_of_mem _ List.mem_cons_self),
        concealing_cursor fun v member => avoids v ?_⟩
      exact List.mem_cons_of_mem _ (List.mem_cons_of_mem _ member)
  | skipping => exact avoids _ List.mem_cons_self

theorem concealing_closed : (first.concealing hidden others locals).Closed first.store where
  array visible item member := visible.step (.content member)
  map visible entry member := by
    have key : entry.1 ∈ first.store.contents (.map _) :=
      List.mem_append_left _ (List.mem_map_of_mem member)
    have value : entry.2 ∈ first.store.contents (.map _) :=
      List.mem_append_right _ (List.mem_map_of_mem member)
    exact ⟨visible.step (.content key), visible.step (.content value)⟩
  library visible there :=
    ⟨trivial, visible.step (.content (by simp [Store.contents, there]))⟩
  form visible there := visible.step (.content (by simp [Store.contents, there]))
  closure {ref found} visible there := by
    have held : first.store.contents (.closure ref) =
        found.parameters :: found.name :: found.replaced.map (·.2) := by
      simp [Store.contents, there]
    refine ⟨?_, visible.step (.defining there), ?_, fun v member => ?_⟩
    · exact visible.step (.content (held ▸ List.mem_cons_self))
    · exact visible.step (.content (held ▸ List.mem_cons_of_mem _ List.mem_cons_self))
    · exact visible.step (.content
        (held ▸ List.mem_cons_of_mem _ (List.mem_cons_of_mem _ member)))
  bound {ref method} visible there := by
    have held : first.store.contents (.bound ref) =
        method.receiver :: method.replaced.map (·.2) := by
      simp [Store.contents, there]
    refine ⟨?_, fun v member => ?_⟩
    · exact visible.step (.content (held ▸ List.mem_cons_self))
    · exact visible.step (.content (held ▸ List.mem_cons_of_mem _ member))
  sequence {ref found} visible there := by
    have held : first.store.contents (.sequence ref) = found.label :: found.state.values := by
      simp [Store.contents, there]
    refine ⟨?_, concealing_state fun v member => ?_⟩
    · exact visible.step (.content (held ▸ List.mem_cons_self))
    · exact visible.step (.content (held ▸ List.mem_cons_of_mem _ member))
  object visible item member := visible.step (.content member)
  host visible item member := visible.step (.content member)
  newArray ref fresh := .of_empty
    (by simp [Store.contents, Store.array, Array.getElem?_eq_none fresh]) fun _ => Value.noConfusion
  newMap ref fresh := .of_empty
    (by simp [Store.contents, Store.map, Array.getElem?_eq_none fresh]) fun _ => Value.noConfusion
  newLibrary ref fresh := .of_empty
    (by simp [Store.contents, Array.getElem?_eq_none fresh]) fun _ => Value.noConfusion
  newClosure ref fresh := by
    have absent : first.store.closures[ref]? = none := Array.getElem?_eq_none fresh
    refine .of_value (fun inner inside => ?_) fun other function same found => ?_
    · simp [Store.contents, absent] at inside
    · cases same
      rw [absent] at found
      cases found
  newBound ref fresh := .of_empty
    (by simp [Store.contents, Array.getElem?_eq_none fresh]) fun _ => Value.noConfusion
  newSequence ref fresh := .of_empty
    (by simp [Store.contents, Array.getElem?_eq_none fresh]) fun _ => Value.noConfusion

theorem concealing_holds (shown : ¬hidden first.module) :
    (first.concealing hidden others locals).Holds first :=
  ⟨⟨rfl, .start shown⟩, concealing_closed⟩

variable {session : Session} (holds : (first.concealing hidden others locals).Holds session)
include holds

theorem clearResults_masked :
    ((first.concealing hidden others locals).masked session).clearResults =
      (first.concealing hidden others locals).masked session.clearResults := by
  unfold clearResults Region.masked withScopes Store.withScopes
  dsimp only [concealing]
  rw [Scopes.substitute_modify holds.scopes.2.module_shown]

theorem clearResults_holds :
    (first.concealing hidden others locals).Holds session.clearResults := by
  obtain ⟨core, apart⟩ := holds.scopes
  have erased (names : List String) (bindings : Bindings Value) :
      names.foldl (fun found name => Bindings.erase name found) bindings ⊆ bindings := by
    induction names generalizing bindings with
    | nil => exact fun _ member => member
    | cons name rest ih => exact fun _ member => (List.mem_filter.mp (ih _ member)).1
  have kept : KeptApart first hidden session.module
      (session.store.scopes.modify session.module fun bindings =>
        ((List.range session.results).map resultName).foldl
          (fun found name => Bindings.erase name found) bindings) :=
    apart.modify apart.module_shown fun visible entry member =>
      apart.binding _ visible entry (erased _ _ member)
  exact ⟨⟨core, kept⟩, { holds.closed with }⟩

omit holds in
theorem defineLibrary_masked (visible : first.store.Avoids hidden (.scope session.module))
    (name : String) (function : LibraryFunction) :
    ((first.concealing hidden others locals).masked session).defineLibrary name function =
      (first.concealing hidden others locals).masked (session.defineLibrary name function) := by
  unfold defineLibrary define Store.define Scopes.define Region.masked withScopes Store.withScopes
  dsimp only [concealing, Store.newLibrary]
  rw [Scopes.substitute_modify visible.not_hidden]

theorem defineLibrary_holds (visible : first.store.Avoids hidden (.scope session.module))
    (name : String) (function : LibraryFunction) :
    (first.concealing hidden others locals).Holds (session.defineLibrary name function) := by
  have shown : (first.concealing hidden others locals).value (.string name) := Region.string _ name
  have closed : (first.concealing hidden others locals).Closed
      (session.store.newLibrary ⟨function, .string name⟩).2 :=
    holds.closed.withNewLibrary trivial shown
  have written := holds.closed.newLibrary _ (Nat.le_refl _)
  obtain ⟨admitted, -⟩ := Region.define _ holds.scopes visible written name
  exact ⟨admitted, { closed with }⟩

theorem installCommands_steps (visible : first.store.Avoids hidden (.scope session.module)) :
    ((first.concealing hidden others locals).masked session).installCommands =
      (first.concealing hidden others locals).masked session.installCommands ∧
    (first.concealing hidden others locals).Holds session.installCommands := by
  unfold installCommands
  generalize sessionCommands = entries
  induction entries generalizing session with
  | nil => exact ⟨rfl, holds⟩
  | cons entry rest ih =>
      rw [List.foldl_cons, List.foldl_cons, defineLibrary_masked visible]
      exact ih (defineLibrary_holds holds visible _ _) visible

theorem clearDefinitions_steps (core : first.store.Avoids hidden (.scope first.core)) :
    ((first.concealing hidden others locals).masked session).clearDefinitions =
      (first.concealing hidden others locals).masked session.clearDefinitions ∧
    (first.concealing hidden others locals).Holds session.clearDefinitions := by
  obtain ⟨same, apart⟩ := holds.scopes
  have new := KeptApart.avoids_new locals apart.older
  have cleared : (first.concealing hidden others locals).Holds
      { session.clear with results := 0 } := by
    have pushed : KeptApart first hidden session.module
        (session.store.scopes.pushModule (some session.core)) := by
      refine apart.push (fun above link => ?_) fun m link => ?_
      · cases link
        rw [same]
        exact core
      · cases link
        exact new
    exact ⟨⟨same, { pushed with module_shown := new.not_hidden }⟩, { holds.closed with }⟩
  have masked :
      { ((first.concealing hidden others locals).masked session).clear with results := 0 } =
        (first.concealing hidden others locals).masked { session.clear with results := 0 } := by
    unfold clear Region.masked withScopes Store.withScopes Scopes.pushModule
    dsimp only [concealing]
    rw [Scopes.next_substitute, Scopes.substitute_push new.not_hidden]
  unfold clearDefinitions
  rw [masked]
  exact installCommands_steps cleared new

theorem definitions_masked :
    ((first.concealing hidden others locals).masked session).definitions = session.definitions := by
  have same : ((first.concealing hidden others locals).masked session).store.scopes.bindings
      ((first.concealing hidden others locals).masked session).module =
        session.store.scopes.bindings session.module :=
    Scopes.bindings_substitute holds.scopes.2.module_shown
  unfold definitions moduleBindings
  rw [same]

end

theorem concealing_commands {others : Nat → Bindings Value}
    {locals : ∀ scope, hidden scope → scope < first.store.scopes.next}
    (core : first.store.Avoids hidden (.scope first.core)) :
    (first.concealing hidden others locals).ConfinesCommands := by
  intro command _ place arguments
  cases command with
  | exit =>
      refine .bind (.keepingStore (fun _ _ => rfl) (fun _ => rfl) (fun _ => rfl) fun _ => rfl)
        fun _ _ => ?_
      exact .pure (Region.null _)
  | clearResults =>
      refine .bind Arguments.empty_confined fun _ _ => ?_
      refine .bind (.modified (fun _ holds => clearResults_masked holds)
        fun _ holds => clearResults_holds holds) fun _ _ => ?_
      exact .pure (Region.null _)
  | clearDefinitions =>
      refine .bind Arguments.empty_confined fun _ _ => ?_
      refine .bind (.modified (fun _ holds => (clearDefinitions_steps holds core).1)
        fun _ holds => (clearDefinitions_steps holds core).2) fun _ _ => ?_
      exact .pure (Region.null _)
  | listDefinitions =>
      refine .bind Arguments.empty_confined fun _ _ => ?_
      refine .get_bind (fun _ holds => ?_) fun _ _ => ?_
      · rw [definitions_masked holds]
      · refine .bind (.forIn fun _ => ?_) fun _ _ => .pure (Region.null _)
        exact .bind (.emit _) fun _ _ => .pure trivial

theorem AgreeExcept.masked (agree : AgreeExcept hidden first second)
    (locals : ∀ scope, hidden scope → scope < first.store.scopes.next) :
    (first.concealing hidden second.store.scopes.bindings locals).masked first = second := by
  have same : first.store.scopes.substitute hidden second.store.scopes.bindings =
      second.store.scopes := by
    refine Scopes.ext_parts (Scopes.next_substitute.trans agree.next.symm) (fun scope present => ?_)
      (fun scope => (Scopes.parentLink_substitute scope).trans (agree.parent scope).symm)
      fun scope => (Scopes.module?_substitute scope).trans (agree.module scope).symm
    by_cases inside : hidden scope
    · exact Scopes.bindings_substitute_hidden inside
        (Nat.lt_of_lt_of_eq present Scopes.next_substitute)
    · exact (Scopes.bindings_substitute inside).trans (agree.bindings scope inside).symm
  show first.withScopes (first.store.scopes.substitute hidden second.store.scopes.bindings) = second
  rw [same]
  exact agree.rest.symm

theorem agreeExcept_masked {others : Nat → Bindings Value}
    {locals : ∀ scope, hidden scope → scope < first.store.scopes.next} (session : Session) :
    AgreeExcept hidden session ((first.concealing hidden others locals).masked session) where
  rest := rfl
  next := Scopes.next_substitute
  parent := Scopes.parentLink_substitute
  module := Scopes.module?_substitute
  bindings _ shown := Scopes.bindings_substitute shown

omit [DecidablePred hidden] in
theorem AgreeExcept.followed {α : Type} {ended : Except Failure α × Session}
    (followed : Followed ended) (agree : AgreeExcept hidden ended.2 second) :
    Followed (ended.1, second) where
  outcome := followed.outcome
  settled := by
    rw [agree.rest]
    exact followed.settled

/-- A call of a function is not followed when a part of the function was replaced. -/
theorem unreplaced_of_followed {engine : Engine} {function : Closure} {arguments : List Value}
    {place : Location} {session : Session}
    (followed : Followed ((Apply.closure engine function arguments place).runOn session)) :
    function.replaced = [] := by
  cases parts : function.replaced with
  | nil => rfl
  | cons part rest =>
      have outcome := followed.outcome
      rw [Apply.closure, parts] at outcome
      have ended : false = true := outcome
      cases ended

/-- The hidden scopes are as they were, in either run, and everything else is the same in both. -/
theorem closure_ignores_hidden_scopes (agree : AgreeExcept hidden first second)
    (locals : ∀ scope, hidden scope → IsLocal first scope) (function : Closure)
    (arguments : List Value) (place : Location) (patience depth : Nat)
    (unseen : ∀ scope, hidden scope → ¬first.Sees function arguments scope)
    (followed : Followed
      ((Apply.closure (Engine.ofDepth patience depth) function arguments place).runOn first)) :
    let call := Apply.closure (Engine.ofDepth patience depth) function arguments place
    Followed (call.runOn second) ∧ (call.runOn second).1 = (call.runOn first).1 ∧
      AgreeExcept hidden (call.runOn first).2 (call.runOn second).2 ∧
      ∀ scope, hidden scope →
        (call.runOn first).2.store.scopes.bindings scope = first.store.scopes.bindings scope ∧
        (call.runOn second).2.store.scopes.bindings scope = second.store.scopes.bindings scope := by
  have present : ∀ scope, hidden scope → scope < first.store.scopes.next :=
    fun scope inside => (locals scope inside).present
  have shown : ¬hidden first.module := fun inside => (locals _ inside).not_module rfl
  have around : first.store.Avoids hidden (.scope function.scope) :=
    fun scope inside reached => unseen scope inside (.inl ⟨_, .inl rfl, reached⟩)
  have given (v : Value) (member : v ∈ function.parameters :: function.name :: arguments) :
      first.store.Avoids hidden (.value v) :=
    fun scope inside reached => unseen scope inside (.inr ⟨v, member, reached⟩)
  have core : first.store.Avoids hidden (.scope first.core) :=
    fun scope inside reached => unseen scope inside (.inl ⟨_, .inr rfl, reached⟩)
  have inside :
      (first.concealing hidden second.store.scopes.bindings present).HasClosure function :=
    ⟨given _ List.mem_cons_self, around, given _ (List.mem_cons_of_mem _ List.mem_cons_self),
      by simp [unreplaced_of_followed followed, Region.values]⟩
  have all : (first.concealing hidden second.store.scopes.bindings present).values arguments :=
    fun v member => given v (List.mem_cons_of_mem _ (List.mem_cons_of_mem _ member))
  intro call
  have confined : (first.concealing hidden second.store.scopes.bindings present).Confines call _ :=
    Apply.closure_confined (Engine.ofDepth_confined (concealing_commands core) patience depth)
      inside all
  -- The second session is the first one with the hidden bindings exchanged.
  obtain ⟨same, kept, -⟩ := confined first (concealing_holds shown)
  rw [agree.masked present] at same
  have rest : call.runOn second = _ := same
  rw [rest]
  refine ⟨AgreeExcept.followed followed (agreeExcept_masked _), rfl, agreeExcept_masked _,
    fun scope hides => ⟨?_, ?_⟩⟩
  · exact kept.scopes.2.hidden_kept scope hides
  · exact Scopes.bindings_substitute_hidden hides
      (Nat.lt_of_lt_of_le (present scope hides) kept.scopes.2.older)

/-- A session in the middle of a call that binds a name in a scope inside the module scope. -/
def callerSession (n : Int) : Session where
  store := { libraryStore with
    scopes := ⟨#[⟨libraryStore.scopes.bindings 0, none, none⟩, ⟨[], some 0, some 1⟩,
      ⟨[("x", .int n)], some 1, some 1⟩]⟩ }
  core := 0
  module := 1
  files := .empty
  directory := []
  home := []
  shell := .recorded [] []
  events := #[]
  results := 0
  running := false

def readingFunction : Closure where
  parameters := .tuple []
  body := .variable ⟨1, 1⟩ "x"
  scope := 1
  name := .null
  replaced := []

theorem callerSession_agree (n m : Int) :
    AgreeExcept (· = 2) (callerSession n) (callerSession m) where
  rest := rfl
  next := rfl
  parent scope := by
    match scope with
    | 0 | 1 | 2 | scope + 3 => rfl
  module scope := by
    match scope with
    | 0 | 1 | 2 | scope + 3 => rfl
  bindings scope shown := by
    match scope with
    | 2 => exact absurd rfl shown
    | 0 | 1 | scope + 3 => rfl

theorem callerSession_local (n : Int) : IsLocal (callerSession n) 2 where
  present := Nat.lt_add_one 2
  not_core := Nat.succ_ne_zero 1
  not_module := Nat.succ_ne_self 1

theorem callerSession_links (n : Int) {scope other : Nat}
    (link : (callerSession n).store.scopes.parentLink scope = some other ∨
      (callerSession n).store.scopes.module? scope = some other) : other < 2 := by
  match scope with
  | 0 => rcases link with link | link <;> cases link
  | 1 | 2 =>
      rcases link with link | link
      · cases link
        decide
      · cases link
        decide
  | scope + 3 => rcases link with link | link <;> cases link

theorem callerSession_unseen (n : Int) : ¬(callerSession n).Sees readingFunction [] 2 := by
  have noClosure : libraryStore.closures = #[] := rfl
  have stays {node next : Node} (outside : node ≠ .scope 2)
      (reached : (callerSession n).store.Reaches node next) : next ≠ .scope 2 := by
    induction reached with
    | refl => exact outside
    | @tail middle last _ leads ih =>
        cases leads with
        | content => exact Node.noConfusion
        | binding => exact Node.noConfusion
        | defining found =>
            simp only [callerSession, noClosure] at found
            cases found
        | parent link =>
            have below := callerSession_links n (.inl (Scopes.parentLink_of_parent? link))
            exact fun same => Nat.ne_of_lt below (Node.scope.inj same)
        | module link =>
            have below := callerSession_links n (.inr link)
            exact fun same => Nat.ne_of_lt below (Node.scope.inj same)
  rintro (⟨around, rfl | rfl, reached⟩ | ⟨v, -, reached⟩)
  · exact stays (fun same => by cases same) reached rfl
  · exact stays (fun same => by cases same) reached rfl
  · exact stays (fun same => by cases same) reached rfl

theorem caller_binding_unseen :
    let call := Apply.closure (Engine.ofDepth 5 3) readingFunction [] ⟨1, 1⟩
    Followed (call.runOn (callerSession 2)) ∧
      (call.runOn (callerSession 2)).1 = (call.runOn (callerSession 1)).1 ∧
      AgreeExcept (· = 2) (call.runOn (callerSession 1)).2 (call.runOn (callerSession 2)).2 ∧
      ∀ scope, scope = 2 →
        (call.runOn (callerSession 1)).2.store.scopes.bindings scope =
          (callerSession 1).store.scopes.bindings scope ∧
        (call.runOn (callerSession 2)).2.store.scopes.bindings scope =
          (callerSession 2).store.scopes.bindings scope := by
  have locals : ∀ scope, scope = 2 → IsLocal (callerSession 1) scope := by
    rintro _ rfl
    exact callerSession_local 1
  have unseen : ∀ scope, scope = 2 → ¬(callerSession 1).Sees readingFunction [] scope := by
    rintro _ rfl
    exact callerSession_unseen 1
  exact closure_ignores_hidden_scopes (callerSession_agree 1 2) locals readingFunction [] ⟨1, 1⟩ 5 3
    unseen ⟨by decide +kernel, by decide +kernel⟩

/-! ## A name that shows a scope -/

/-- A scope that a call sees through scopes, functions of programs, containers and lazy sequences
alone. -/
def SeesThroughHolders (session : Session) (function : Closure) (arguments : List Value)
    (scope : Nat) : Prop :=
  ∃ node, (node = .scope function.scope ∨ node = .scope session.core ∨
      ∃ v ∈ function.parameters :: function.name :: arguments, node = .value v) ∧
    Relation.ReflTransGen (fun node next => node.isHolder = true ∧ session.store.Leads node next)
      node (.scope scope)

/-- A session in which the name of a library function is a function that closes over an inner
scope. -/
def namedSession (n : Int) : Session :=
  { callerSession n with
    store := { (callerSession n).store.renameLibrary 0 (.closure 0) with
      closures := #[⟨.tuple [], .variable ⟨1, 1⟩ "x", 2, .null, []⟩] } }

/-- Calls the name of `+`. -/
def callingName : Closure where
  parameters := .tuple []
  body := .call ⟨1, 1⟩ [.call ⟨1, 2⟩ [.command ⟨1, 3⟩ "get", .variable ⟨1, 7⟩ "+",
    .value ⟨1, 10⟩ (.quoted "name")]]
  scope := 1
  name := .null
  replaced := []

theorem namedSession_agree (n m : Int) : AgreeExcept (· = 2) (namedSession n) (namedSession m) where
  rest := rfl
  next := rfl
  parent := (callerSession_agree n m).parent
  module := (callerSession_agree n m).module
  bindings := (callerSession_agree n m).bindings

/-- The library and the module scope of the session, and values that are no function of a program. -/
def isFixture : Node → Bool
  | .scope scope => scope < 2
  | .value (.library _) | .value (.form _) | .value (.map _) | .value (.string _)
  | .value .null => true
  | .value (.tuple items) => items.isEmpty
  | .value _ => false

theorem namedSession_unseen (n : Int) :
    ¬(namedSession n).SeesThroughHolders callingName [] 2 := by
  have bindings : ∀ entry ∈ libraryStore.scopes.bindings 0, isFixture (.value entry.2) = true := by
    decide +kernel
  have maps : ∀ entries ∈ libraryStore.maps.toList, ∀ entry ∈ entries.toList,
      isFixture (.value entry.1) = true ∧ isFixture (.value entry.2) = true := by decide +kernel
  have core : (namedSession n).store.scopes.bindings 0 = libraryStore.scopes.bindings 0 := by
    simp only [namedSession, callerSession, Store.renameLibrary]
    generalize libraryStore.scopes.bindings 0 = found
    rfl
  have empty : (namedSession n).store.scopes.bindings 1 = [] := rfl
  have inMap {ref : Nat} {entry : Value × Value} (member : entry ∈ (libraryStore.map ref).toList) :
      isFixture (.value entry.1) = true ∧ isFixture (.value entry.2) = true := by
    cases there : libraryStore.maps[ref]? with
    | none =>
        rw [Store.map, there] at member
        cases member
    | some entries =>
        rw [Store.map, there] at member
        exact maps entries (Array.mem_toList_iff.mpr (Array.mem_of_getElem? there)) entry member
  have stays {node next : Node} (first : isFixture node = true)
      (reached : Relation.ReflTransGen (fun node next => node.isHolder = true ∧
        (namedSession n).store.Leads node next) node next) : isFixture next = true := by
    induction reached with
    | refl => exact first
    | tail _ step ih =>
        obtain ⟨holder, leads⟩ := step
        cases leads with
        | @content v inner held =>
            cases v with
            | tuple items =>
                obtain rfl := List.isEmpty_iff.mp ih
                cases held
            | map ref =>
                rcases List.mem_append.mp held with key | item
                · obtain ⟨entry, member, rfl⟩ := List.mem_map.mp key
                  exact (inMap member).1
                · obtain ⟨entry, member, rfl⟩ := List.mem_map.mp item
                  exact (inMap member).2
            | array | closure | sequence => cases ih
            | _ => cases holder
        | defining found => cases ih
        | @binding scope entry bound =>
            have below : scope < 2 := of_decide_eq_true ih
            obtain rfl | rfl : scope = 0 ∨ scope = 1 := by omega
            · exact bindings entry (core ▸ bound)
            · rw [empty] at bound
              cases bound
        | parent link =>
            exact decide_eq_true (callerSession_links n (.inl (Scopes.parentLink_of_parent? link)))
        | module link => exact decide_eq_true (callerSession_links n (.inr link))
  rintro ⟨node, start, reached⟩
  have first : isFixture node = true := by
    rcases start with rfl | rfl | ⟨v, given, rfl⟩
    · rfl
    · rfl
    · rcases List.mem_cons.mp given with rfl | given
      · rfl
      · obtain rfl := List.mem_singleton.mp given
        rfl
  cases stays first reached

/-- A call gives what an inner scope binds, though nothing but the name of a library function leads to
that scope. -/
theorem closure_sees_through_name :
    ¬∀ (hidden : Nat → Prop) (first second : Session), AgreeExcept hidden first second →
      (∀ scope, hidden scope → IsLocal first scope) →
      ∀ (function : Closure) (arguments : List Value) (place : Location) (patience depth : Nat),
        (∀ scope, hidden scope → ¬first.SeesThroughHolders function arguments scope) →
        let call := Apply.closure (Engine.ofDepth patience depth) function arguments place
        (call.runOn second).1 = (call.runOn first).1 := by
  intro unseen
  have same := unseen (· = 2) _ _ (namedSession_agree 1 2)
    (fun scope same => same ▸ ⟨Nat.lt_add_one 2, Nat.succ_ne_zero 1, Nat.succ_ne_self 1⟩) callingName
    [] ⟨1, 1⟩ 5 5 (fun scope same => same ▸ namedSession_unseen 1)
  let call := Apply.closure (Engine.ofDepth 5 5) callingName [] ⟨1, 1⟩
  have one : ((call.runOn (namedSession 1)).1.map (·.sameKey (.int 1))).toOption = some true := by
    decide +kernel
  have two : ((call.runOn (namedSession 2)).1.map (·.sameKey (.int 1))).toOption = some false := by
    decide +kernel
  rw [show (call.runOn (namedSession 2)).1 = (call.runOn (namedSession 1)).1 from same, one] at two
  cases two

end Session

end ShellLisp
