import ShellLisp.Proofs.Sequences.Stages

/-!
# Calls of functions that a program defined

A function with one parameter evaluates its body in a new scope with the parameter bound. What there
was before stays as it is, so what the call does besides is what the body does.
-/

namespace ShellLisp

namespace Scopes
variable {α : Type} {scopes : Scopes α} {scope parent : Nat} {frame : Scope α} {name : String}
  {v : α}

theorem bindings_of_frame (there : scopes.frames[scope]? = some frame) :
    scopes.bindings scope = frame.bindings := by
  rw [bindings, get?, there]
  rfl

theorem lookup?_bound (there : scopes.frames[scope]? = some frame)
    (bound : List.lookup name frame.bindings = some v) : scopes.lookup? scope name = some v := by
  rw [lookup?, bindings_of_frame there, bound]

theorem lookup?_inherited (there : scopes.frames[scope]? = some frame)
    (free : List.lookup name frame.bindings = none) (inherits : frame.parent = some parent)
    (older : parent < scope) : scopes.lookup? scope name = scopes.lookup? parent name := by
  have known : scopes.parent? scope = some ⟨parent, older⟩ := by
    rw [parent?, get?, there, Option.bind_some, inherits]
    exact dif_pos older
  rw [lookup?, bindings_of_frame there, free, known]

end Scopes

namespace Session
variable (session : Session) (scope : Nat) (name : String) (v : Value)

def entered : Session :=
  { session with store :=
      (session.store.newScope scope).2.define session.store.scopes.next name v }

theorem frame_entered : ∃ module,
    (session.entered scope name v).store.scopes.frames[session.store.scopes.next]? =
      some ⟨[(name, v)], some scope, module⟩ := by
  refine ⟨session.store.scopes.module? scope, ?_⟩
  simp [entered, Store.newScope, Store.define, Scopes.define, Scopes.modify, Scopes.pushChild,
    Scopes.push, Scopes.next, Array.getElem_modify, Bindings.define]

theorem entered_grows : session.Grows ∅ (session.entered scope name v) := by
  refine .onStore { Store.Grows.refl ∅ session.store with frames := fun i frame there => ?_ }
  have older : i < session.store.scopes.frames.size := (Array.getElem?_eq_some_iff.mp there).1
  have kept := Prolongs.push session.store.scopes.frames
    ⟨[], some scope, session.store.scopes.module? scope⟩ i frame there
  simpa [Store.newScope, Store.define, Scopes.define, Scopes.modify, Scopes.pushChild,
    Scopes.push, Scopes.next, Array.getElem?_modify, Nat.ne_of_gt older] using kept

end Session

/-- A call with one argument evaluates the body in a scope with the parameter bound. -/
theorem Apply.runOn_closure {session : Session} {ref parameters : Nat} {closure : Closure}
    {name : String} (found : session.store.closures[ref]? = some closure)
    (listed : closure.parameters = .array parameters)
    (named : session.store.arrays[parameters]? = some #[.string name])
    (unreplaced : closure.replaced = []) (engine : Engine)
    (argument : Value) (place : Location) :
    (apply engine (.closure ref) [argument] place).runOn session =
      (engine.interpret closure.body session.store.scopes.next).runOn
        (session.entered closure.scope name argument) := by
  have listing : session.store.array parameters = #[.string name] := by
    rw [Store.array, named]
    rfl
  have one : parameterCount session.store closure.parameters = .ok 1 := by
    rw [listed]
    show Except.ok (session.store.array parameters).size = _
    rw [listing]
    rfl
  have begins : (apply engine (.closure ref) [argument] place).runOn session =
      (Apply.closure engine closure [argument] place).runOn session := by
    have asked : (Eval.ask fun store => store.closures[ref]?).runOn session =
        (.ok (some closure), session) := congrArg (fun found => (Except.ok found, session)) found
    exact Eval.runOn_bind_ok asked _
  rw [begins, Apply.closure, unreplaced]
  refine (Eval.runOn_bind_ok rfl _).trans ?_
  rw [Eval.runOn_get_bind, one]
  refine (Eval.runOn_bind_ok (a := 1) rfl _).trans ?_
  rw [if_neg (by simp)]
  let within : Session := { session with store := (session.store.newScope closure.scope).2 }
  have opened : (Eval.newScope closure.scope).runOn session =
      (.ok session.store.scopes.next, within) := rfl
  have elements : within.store.fixedElements closure.parameters = .ok [.string name] := by
    rw [listed]
    show Except.ok (session.store.array parameters).toList = _
    rw [listing]
  have lifted : (Eval.lift (within.store.fixedElements closure.parameters)).runOn within =
      (.ok [.string name], within) := by
    rw [elements]
    rfl
  exact (Eval.runOn_bind_ok opened _).trans
    ((Eval.runOn_get_bind within _).trans (Eval.runOn_bind_ok lifted _))

end ShellLisp
