import Mathlib
import ShellLisp.Proofs.Confinement.Evaluation
import ShellLisp.Proofs.Scoping.Frames
import ShellLisp.Session.Start

/-!
# Where evaluation writes

An evaluation inside the module scope defines names in the module scope and in scopes that it makes,
and nowhere else. Deleting can reach every scope between, but no library name, since every chain of
scopes comes to the module scope before it comes to the core scope.
-/

namespace ShellLisp

/-- Going up from any scope but the core one, the module scope comes before the core scope. A scope
without a module scope never comes to either. -/
structure Nested (core module : Nat) (scopes : Scopes Value) : Prop where
  older : core < module
  root : scopes.parentLink core = none
  entry : scopes.parentLink module = some core
  own : scopes.module? module = some module
  inside : ∀ scope parent, scope ≠ core → scope ≠ module → parent < scope →
    scopes.parentLink scope = some parent → parent ≠ core
  linked : ∀ scope, scope ≠ core → scopes.module? scope = some module ∨
    scopes.module? scope = none ∧ ∀ parent, parent < scope →
      scopes.parentLink scope = some parent → scopes.module? parent = none

/-- The scopes that there were still have their links and, apart from the module scope, no bindings
but those that they had. -/
structure Undisturbed (core module : Nat) (before after : Scopes Value) : Prop where
  older : before.next ≤ after.next
  core : after.bindings core = before.bindings core
  kept : ∀ scope, scope < before.next → scope ≠ module → ∃ removed : List String,
    after.bindings scope = (before.bindings scope).filter fun entry => entry.1 ∉ removed
  parent : ∀ scope, scope < before.next → after.parentLink scope = before.parentLink scope
  module : ∀ scope, scope < before.next → after.module? scope = before.module? scope

namespace Nested
variable {core module : Nat} {scopes : Scopes Value}

theorem module_present (nested : Nested core module scopes) : module < scopes.next := by
  refine Nat.lt_of_not_le fun absent => ?_
  cases nested.own.symm.trans (Scopes.module?_absent absent)

theorem present (nested : Nested core module scopes) : core < scopes.next :=
  Nat.lt_trans nested.older nested.module_present

theorem apart (nested : Nested core module scopes) : module ≠ core := Nat.ne_of_gt nested.older

theorem not_core (nested : Nested core module scopes) {scope : Nat}
    (within : module ∈ scopes.chain scope) : scope ≠ core := by
  rintro rfl
  rw [Scopes.chain_of_root nested.root] at within
  exact nested.apart (List.mem_singleton.mp within)

theorem modify (nested : Nested core module scopes) (holder : Nat)
    (change : Bindings Value → Bindings Value) :
    Nested core module (scopes.modify holder change) where
  older := nested.older
  root := by rw [Scopes.parentLink_modify]; exact nested.root
  entry := by rw [Scopes.parentLink_modify]; exact nested.entry
  own := by rw [Scopes.module?_modify]; exact nested.own
  inside scope parent := by rw [Scopes.parentLink_modify]; exact nested.inside scope parent
  linked scope := by
    simp only [Scopes.module?_modify, Scopes.parentLink_modify]
    exact nested.linked scope

theorem pushChild (nested : Nested core module scopes) {parent : Nat} (within : parent ≠ core) :
    Nested core module (scopes.pushChild parent) where
  older := nested.older
  root := by
    rw [Scopes.pushChild, Scopes.parentLink_push, if_neg (Nat.ne_of_lt nested.present)]
    exact nested.root
  entry := by
    rw [Scopes.pushChild, Scopes.parentLink_push, if_neg (Nat.ne_of_lt nested.module_present)]
    exact nested.entry
  own := by
    rw [Scopes.pushChild, Scopes.module?_push, if_neg (Nat.ne_of_lt nested.module_present)]
    exact nested.own
  inside scope above different elsewhere older link := by
    rw [Scopes.pushChild, Scopes.parentLink_push] at link
    split at link
    · cases link
      exact within
    · exact nested.inside scope above different elsewhere older link
  linked scope different := by
    simp only [Scopes.pushChild, Scopes.module?_push, Scopes.parentLink_push]
    -- The new scope is the innermost and has its parent's module; no older scope is linked to it.
    by_cases new : scope = scopes.next
    · rw [if_pos new, if_pos new]
      rcases nested.linked parent within with link | ⟨link, -⟩
      · exact .inl link
      · refine .inr ⟨link, fun above older same => ?_⟩
        cases same
        rw [if_neg (Nat.ne_of_lt (new ▸ older))]
        exact link
    · rw [if_neg new, if_neg new]
      refine (nested.linked scope different).imp id fun ⟨link, goesUp⟩ => ⟨link, ?_⟩
      intro above older up
      have there := Nat.lt_trans older (Scopes.present_of_parentLink up)
      rw [if_neg (Nat.ne_of_lt there)]
      exact goesUp above older up

theorem deletes (nested : Nested core module scopes) {scope holder : Nat} {name : String}
    (different : scope ≠ core)
    (found : scopes.findWithin? (scopes.module? scope) scope name = some holder) :
    holder ≠ core := by
  rcases nested.linked scope different with link | ⟨link, -⟩
  -- Inside the module scope the search ends there, one scope before the library.
  · rw [link] at found
    refine Scopes.findWithin?_has (· ≠ core) (fun below above start beyond older up => ?_) scope
      holder different found
    exact nested.inside below above start (fun same => beyond (same ▸ rfl)) older up
  -- Without a module scope nothing ends the search, but such a chain never comes to the library.
  · rw [link] at found
    refine (Scopes.findWithin?_has (fun scope => scope ≠ core ∧ scopes.module? scope = none)
      (fun below above start _ older up => ?_) scope holder ⟨different, link⟩ found).1
    obtain ⟨below_core, floating⟩ := start
    have elsewhere : below ≠ module := by
      rintro rfl
      rw [nested.own] at floating
      cases floating
    refine ⟨nested.inside below above below_core elsewhere older up, ?_⟩
    rcases nested.linked below below_core with linked | ⟨-, goesUp⟩
    · rw [floating] at linked
      cases linked
    · exact goesUp above older up

end Nested

namespace Undisturbed
variable {core module : Nat} {before after : Scopes Value}

theorem refl (core module : Nat) (scopes : Scopes Value) :
    Undisturbed core module scopes scopes where
  older := Nat.le_refl _
  core := rfl
  kept _ _ _ := ⟨[], (List.filter_eq_self.mpr fun _ _ => by simp).symm⟩
  parent _ _ := rfl
  module _ _ := rfl

theorem pushChild (undisturbed : Undisturbed core module before after) (parent : Nat) :
    Undisturbed core module before (after.pushChild parent) where
  older := by
    rw [Scopes.pushChild, Scopes.next_push]
    exact Nat.le_succ_of_le undisturbed.older
  core := by rw [Scopes.pushChild, Scopes.bindings_push]; exact undisturbed.core
  kept scope there elsewhere := by
    rw [Scopes.pushChild, Scopes.bindings_push]
    exact undisturbed.kept scope there elsewhere
  parent scope there := by
    have old : scope ≠ after.next := Nat.ne_of_lt (Nat.lt_of_lt_of_le there undisturbed.older)
    rw [Scopes.pushChild, Scopes.parentLink_push, if_neg old]
    exact undisturbed.parent scope there
  module scope there := by
    have old : scope ≠ after.next := Nat.ne_of_lt (Nat.lt_of_lt_of_le there undisturbed.older)
    rw [Scopes.pushChild, Scopes.module?_push, if_neg old]
    exact undisturbed.module scope there

theorem modify (undisturbed : Undisturbed core module before after) {holder : Nat}
    {change : Bindings Value → Bindings Value} (different : holder ≠ core)
    (removes : holder < before.next → holder ≠ module → ∃ removed : List String,
      ∀ bindings, change bindings = bindings.filter fun entry => entry.1 ∉ removed) :
    Undisturbed core module before (after.modify holder change) where
  older := by rw [Scopes.next_modify]; exact undisturbed.older
  core := by
    rw [Scopes.bindings_modify_other (Ne.symm different)]
    exact undisturbed.core
  kept scope there elsewhere := by
    obtain ⟨removed, former⟩ := undisturbed.kept scope there elsewhere
    rcases Scopes.bindings_modify after holder change scope with same | ⟨rfl, changed⟩
    · exact ⟨removed, same.trans former⟩
    · obtain ⟨further, removes⟩ := removes there elsewhere
      refine ⟨further ++ removed, ?_⟩
      rw [changed, removes, former, List.filter_filter]
      simp [List.mem_append, not_or]
  parent scope there := by rw [Scopes.parentLink_modify]; exact undisturbed.parent scope there
  module scope there := by rw [Scopes.module?_modify]; exact undisturbed.module scope there

end Undisturbed

/-- What an evaluation may do when it starts in a session: it holds any values, runs in any scope
but the core one, and defines names in the module scope and in new scopes. -/
def Session.writing (base : Session)
    (nested : Nested base.core base.module base.store.scopes) : Region where
  value _ := True
  scope found := found ≠ base.core
  target holder := holder = base.module ∨ base.store.scopes.next ≤ holder
  function function := ∀ command, function ≠ .session command
  admits core module scopes := core = base.core ∧ module = base.module ∧
    Nested base.core base.module scopes ∧
      Undisturbed base.core base.module base.store.scopes scopes
  replaced := id
  null := trivial
  bool _ := trivial
  number _ := trivial
  string _ := trivial
  complex := trivial
  tuple _ := ⟨fun _ _ _ => trivial, fun _ => trivial⟩
  lookup _ _ _ := trivial
  lookup_replaced _ _ _ := rfl
  module_target := by
    rintro _ _ scopes found m ⟨-, -, nested, -⟩ inside link
    rcases nested.linked found inside with same | ⟨absent, -⟩
    · exact .inl (Option.some.inj (link.symm.trans same))
    · rw [absent] at link
      cases link
  module_replaced _ _ := rfl
  next_replaced _ := rfl
  pushChild := by
    rintro _ _ scopes parent ⟨rfl, rfl, nested, undisturbed⟩ inside
    refine ⟨⟨rfl, rfl, nested.pushChild inside, undisturbed.pushChild parent⟩, ?_,
      .inr undisturbed.older, rfl⟩
    exact Nat.ne_of_gt nested.present
  define := by
    rintro _ _ scopes holder v ⟨rfl, rfl, inner, undisturbed⟩ target - name
    refine ⟨⟨rfl, rfl, inner.modify _ _, undisturbed.modify ?_ fun there elsewhere => ?_⟩, rfl⟩
    · rcases target with rfl | new
      · exact nested.apart
      · exact Nat.ne_of_gt (Nat.lt_of_lt_of_le nested.present new)
    · rcases target with same | new
      · exact absurd same elsewhere
      · exact absurd there (Nat.not_lt_of_le new)
  delete := by
    rintro _ _ scopes found ⟨rfl, rfl, inner, undisturbed⟩ inside name
    rcases Scopes.delete_eq scopes found name with same | ⟨holder, there, same⟩
    · rw [same]
      exact ⟨⟨rfl, rfl, inner, undisturbed⟩, same⟩
    · rw [same]
      refine ⟨⟨rfl, rfl, inner.modify _ _, ?_⟩, same⟩
      refine undisturbed.modify (inner.deletes inside there) fun _ _ => ⟨[name], fun bindings => ?_⟩
      simp [Bindings.erase]

namespace Session

/-- The sessions that a new one becomes when source texts are evaluated in it, whether or not the
evaluations fail. -/
inductive Reached : Session → Prop
  | start (files : FileTree) (directory home : Path) (shell : Shell) :
      Reached (start files directory home shell)
  | evaluate {session : Session} (reached : Reached session) (source : String) :
      Reached (session.evaluate source).2

/-- No function closes over the core scope, and the library has no commands of an interactive
session. -/
structure Sound (session : Session) : Prop where
  nested : Nested session.core session.module session.store.scopes
  closure : ∀ {ref : Nat} {function : Closure}, session.store.closures[ref]? = some function →
    function.scope ≠ session.core
  library : ∀ {ref : Nat} {cell : LibraryCell}, session.store.libraries[ref]? = some cell →
    ∀ command, cell.function ≠ .session command

variable {session : Session}

theorem writing_state {base : Session} {nested} (state : SequenceState) :
    (base.writing nested).state state := by
  cases state with
  | counting | stepping | skipping | finished => trivial
  | mapped | filtered => exact ⟨trivial, trivial⟩
  | flattened source function place inner =>
      refine ⟨trivial, trivial, ?_⟩
      cases inner with
      | items rest => exact fun _ _ => trivial
      | elements | pairs | keys | chars | sequence | ended => trivial

theorem Sound.holds (sound : Sound session) : (session.writing sound.nested).Holds session where
  scopes := ⟨rfl, rfl, sound.nested, .refl _ _ _⟩
  closed :=
    { array := fun _ _ _ => trivial
      map := fun _ _ _ => ⟨trivial, trivial⟩
      library := fun _ there => ⟨sound.library there, trivial⟩
      form := fun _ _ => trivial
      closure := fun _ there => ⟨trivial, sound.closure there, trivial, fun _ _ => trivial⟩
      bound := fun _ _ => ⟨trivial, fun _ _ => trivial⟩
      sequence := fun _ _ => ⟨trivial, writing_state _⟩
      object := fun _ _ _ => trivial
      host := fun _ _ _ => trivial
      newArray := fun _ _ => trivial
      newMap := fun _ _ => trivial
      newLibrary := fun _ _ => trivial
      newClosure := fun _ _ => trivial
      newBound := fun _ _ => trivial
      newSequence := fun _ _ => trivial }

theorem Sound.of_holds {base : Session} {nested}
    (holds : (base.writing nested).Holds session) : Sound session := by
  obtain ⟨core, module, inner, -⟩ := holds.scopes
  refine ⟨?_, fun there => ?_, fun there => ?_⟩
  · rw [core, module]
    exact inner
  · rw [core]
    exact (holds.closed.closure trivial there).scope
  · exact (holds.closed.library trivial there).1

theorem writing_commands {base : Session} {nested} : (base.writing nested).ConfinesCommands :=
  fun command inside => absurd rfl (inside command)

theorem libraryStore_scopes : ∃ bindings, libraryStore.scopes = ⟨#[⟨bindings, none, none⟩]⟩ := by
  have links : libraryStore.scopes.frames.toList.map (fun frame => (frame.parent, frame.module)) =
      [(none, none)] := by decide +kernel
  obtain ⟨frame, single, same⟩ := List.map_eq_singleton_iff.mp links
  obtain ⟨bindings, parent, module⟩ := frame
  cases same
  exact ⟨bindings, congrArg Scopes.mk (Array.toList_inj.mp single)⟩

theorem nested_in_library (bindings : Bindings Value) :
    Nested 0 1 (Scopes.pushModule ⟨#[⟨bindings, none, none⟩]⟩ (some 0)) where
  older := Nat.zero_lt_one
  root := rfl
  entry := rfl
  own := rfl
  inside scope parent different elsewhere _ link := by
    match scope with
    | 0 => exact absurd rfl different
    | 1 => exact absurd rfl elsewhere
    | scope + 2 => cases link
  linked scope different := by
    match scope with
    | 0 => exact absurd rfl different
    | 1 => exact .inl rfl
    | scope + 2 => exact .inr ⟨rfl, fun parent _ link => nomatch link⟩

theorem start_sound (files : FileTree) (directory home : Path) (shell : Shell) :
    Sound (start files directory home shell) := by
  obtain ⟨bindings, same⟩ := libraryStore_scopes
  have noClosure : libraryStore.closures = #[] := rfl
  have noCommand : (libraryStore.libraries.toList.all fun cell =>
      match cell.function with
      | .session _ => false
      | _ => true) = true := by decide +kernel
  refine ⟨?_, fun there => ?_, fun {ref cell} there command asked => ?_⟩
  · simp only [start, same]
    exact nested_in_library bindings
  · simp only [start, noClosure] at there
    cases there
  · have inside := List.all_eq_true.mp noCommand cell
      (List.mem_of_getElem? ((Array.getElem?_toList ..).trans there))
    rw [asked] at inside
    cases inside

theorem Reached.sound (reached : Reached session) : Sound session := by
  induction reached with
  | start files directory home shell => exact start_sound files directory home shell
  | @evaluate session reached source sound =>
      have apart : (session.writing sound.nested).scope session.module := sound.nested.apart
      have confined :=
        Engine.evaluateText_confined (Engine.default_confined writing_commands) source apart
      show Sound (Eval.runOn session (Engine.default.evaluateText source session.module)).2
      exact .of_holds (confined session sound.holds).2.1

/-- Evaluation writes nowhere but in the module scope and in scopes of its own, except that it may
delete bindings of the scopes around it; the library it leaves as it is. -/
theorem interpret_writes_only_module_scope (reached : Reached session) (patience depth : Nat)
    (e : Expr) (scope : Nat) (within : session.module ∈ session.store.scopes.chain scope) :
    Undisturbed session.core session.module session.store.scopes
      (Eval.runOn session ((Engine.ofDepth patience depth).interpret e scope)).2.store.scopes := by
  have sound := reached.sound
  have inside : (session.writing sound.nested).scope scope := sound.nested.not_core within
  have confined := (Engine.ofDepth_confined writing_commands patience depth).interpret e inside
  exact (confined session sound.holds).2.1.scopes.2.2.2

/-- The tree of `(let [$x 1] (def $y $x))`. -/
def nestedDefinition : Expr :=
  .call ⟨1, 1⟩ [.command ⟨1, 2⟩ "let",
    .array ⟨1, 6⟩ [.variable ⟨1, 7⟩ "x", .value ⟨1, 10⟩ (.number (.int 1) "1")],
    .call ⟨1, 13⟩ [.command ⟨1, 14⟩ "def", .variable ⟨1, 18⟩ "y", .variable ⟨1, 21⟩ "x"]]

theorem nestedDefinition_writes_only_module_scope :
    let session := start .empty [] [] (.recorded [] [])
    let after :=
      (Eval.runOn session ((Engine.ofDepth 5 3).interpret nestedDefinition session.module)).2
    Undisturbed session.core session.module session.store.scopes after.store.scopes ∧
      after.store.scopes.bindings 1 = [("y", .number (.int 1))] := by
  refine ⟨interpret_writes_only_module_scope (.start .empty [] [] _) 5 3 nestedDefinition _
    (Scopes.mem_chain_self _), ?_⟩
  cbv

end Session

end ShellLisp
