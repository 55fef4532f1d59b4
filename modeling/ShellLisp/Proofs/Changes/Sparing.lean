import ShellLisp.Proofs.Changes.Actions
import ShellLisp.Session.Start

/-!
# Evaluations that spare what is reserved

The evaluator again, but refusing two things: calls of `def`, `defn` and `delete` that come to bind or
remove a reserved name, and calls of `set` that write a reserved entry. A program spares what is
reserved when this evaluator does with it the same as the other. Where nothing is reserved, nothing is
refused.
-/

namespace ShellLisp

def Fault.reserved : Fault := ⟨.state, "reserved"⟩

namespace Form

/-- The names that a form is to bind or to remove, as far as it is well-formed. -/
def targets : SpecialForm → List Expr → List String
  | .define, .variable _ name :: _ => [name]
  | .defineFunction, .variable _ name :: _ => [name]
  | .delete, .variable _ name :: rest => name :: targets .delete rest
  | _, _ => []

/-- Whether a call of a form binds a reserved name, or removes one that is bound. A definition that
fails binds nothing. -/
def touches (reserved : Reserved) (engine : Engine) (scope : Nat) (place : Location)
    (body : List Expr) (form : SpecialForm) (session : Session) : Bool :=
  (targets form body).any fun name => reserved.name name &&
    match form with
    | .delete => (session.store.scopes.delete scope name).1
    | _ => ((call engine scope place body form).runOn session).1.isOk

end Form

namespace Interpret

def callee (engine : Engine) (scope : Nat) (head : Expr) : Eval Value := do
  let known ←
    match head with
    | .command _ name => Eval.lookup scope name
    | _ => pure .null
  if known.isCallable then return known else engine.interpret head scope

def touchesName (reserved : Reserved) (engine : Engine) (scope : Nat) (session : Session) :
    Expr → Bool
  | .call place (head :: body) =>
      match (callee engine scope head).runOn session with
      | (.ok (.form ref), after) =>
          match after.store.forms[ref]? with
          | some cell => Form.touches reserved engine scope place body cell.form after
          | none => false
      | _ => false
  | _ => false

/-- As `interpret`, but refuses to touch a reserved name. -/
def sparing (reserved : Reserved) (engine : Engine) (e : Expr) (scope : Nat) : Eval Value := do
  if touchesName reserved engine scope (← get) e then Eval.fault .reserved
  else interpret engine e scope

end Interpret

/-- The map and the key in it that `set` comes to write, if it writes to a map. -/
def Member.written? (store : Store) (target : Value) : List Value → Option (Nat × Value)
  | [key, _] =>
      match target with
      | .map ref => some (ref, key)
      | _ => none
  | key :: rest =>
      match read store target key with
      | .ok next => written? store next rest
      | .error _ => none
  | [] => none

def Apply.touchesEntry (reserved : Reserved) (callee : Value) (arguments : List Value)
    (store : Store) : Bool :=
  match callee with
  | .library ref =>
      match store.libraries[ref]? with
      | some ⟨.core .set, _⟩ =>
          match Member.written? store (arguments.headD .null) arguments.tail with
          | some (map, key) => reserved.entry map key
          | none => false
      | _ => false
  | _ => false

def Apply.sparing (reserved : Reserved) (engine : Engine) (callee : Value)
    (arguments : List Value) (place : Location) : Eval Value := do
  if touchesEntry reserved callee arguments (← get).store then Eval.fault .reserved
  else apply engine callee arguments place

namespace Engine

def sparing (reserved : Reserved) (engine : Engine) : Engine :=
  { engine.deeper with
    interpret := Interpret.sparing reserved engine
    apply := Apply.sparing reserved engine }

def sparingOfDepth (reserved : Reserved) (patience : Nat) : Nat → Engine
  | 0 => exhausted patience
  | depth + 1 => sparing reserved (sparingOfDepth reserved patience depth)

theorem sparing_nothing (engine : Engine) : sparing .nothing engine = engine.deeper := by
  have names (scope : Nat) (session : Session) (e : Expr) :
      Interpret.touchesName .nothing engine scope session e = false := by
    unfold Interpret.touchesName
    split
    · split
      · split
        · simp [Form.touches, Reserved.nothing]
        · rfl
      · rfl
    · rfl
  have entries (callee : Value) (arguments : List Value) (store : Store) :
      Apply.touchesEntry .nothing callee arguments store = false := by
    unfold Apply.touchesEntry
    split
    · split
      · split <;> rfl
      · rfl
    · rfl
  -- With nothing reserved no guard ever stops an evaluation.
  have interprets : Interpret.sparing .nothing engine = Interpret.interpret engine := by
    refine funext fun e => funext fun scope => funext fun session => ?_
    show Eval.runOn session (if Interpret.touchesName .nothing engine scope session e then _
      else Interpret.interpret engine e scope) = _
    rw [names]
    rfl
  have applies : Apply.sparing .nothing engine = Apply.apply engine := by
    refine funext fun callee => funext fun arguments => funext fun place => funext fun session => ?_
    show Eval.runOn session (if Apply.touchesEntry .nothing callee arguments session.store then _
      else Apply.apply engine callee arguments place) = _
    rw [entries]
    rfl
  rw [sparing, interprets, applies]
  rfl

theorem sparingOfDepth_nothing (patience depth : Nat) :
    sparingOfDepth .nothing patience depth = ofDepth patience depth := by
  induction depth with
  | zero => rfl
  | succ depth ih => rw [sparingOfDepth, ih, sparing_nothing, ofDepth]

end Engine

def Session.evaluateSparing (reserved : Reserved) (session : Session) (source : String) :
    Except Failure Value × Session :=
  Eval.runOn session
    ((Engine.sparingOfDepth reserved Engine.defaultPatience depthLimits.evaluation).evaluateText
      source session.module)

theorem Session.evaluateSparing_nothing (session : Session) (source : String) :
    session.evaluateSparing .nothing source = session.evaluate source := by
  rw [evaluateSparing, Engine.sparingOfDepth_nothing]
  rfl

def Session.isNumber (line : String) : Bool :=
  match Expr.read line with
  | .ok (some (.value _ (.number _ _))) => true
  | _ => false

theorem Session.evaluateSparing_number {reserved : Reserved} {line : String}
    (number : isNumber line = true) (session : Session) :
    session.evaluateSparing reserved line = session.evaluate line := by
  unfold isNumber at number
  split at number
  · rename_i parsed
    unfold evaluateSparing evaluate evaluateIn Engine.evaluateText
    rw [parsed]
    rfl
  · cases number

end ShellLisp
