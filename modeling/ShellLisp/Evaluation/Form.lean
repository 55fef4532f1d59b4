import ShellLisp.Evaluation.Elements
import ShellLisp.Library.Arguments

/-!
# Special forms

The forms that are given expressions and decide themselves what is evaluated, and in which scope. A
definition goes to the module scope of the scope it stands in; `let`, `for` and functions bind names
in new scopes.
-/

namespace ShellLisp.Form

def variableName (form : String) (position : Nat) : Expr → Eval String
  | .variable _ name => return name
  | other => Eval.problem other.place (.expectedVariable form position other.kind)

def arrayItems (form : String) (position : Nat) : Expr → Eval (List Expr)
  | .array _ body => return body
  | other => Eval.problem other.place (.expectedArrayForm form position other.kind)

def truthy (value : Value) : Eval Bool := Eval.ask fun store => store.truthy value

def nameFunction (name : String) : Value → Eval Unit
  | .closure ref =>
      Eval.update fun store => store.modifyClosure ref fun closure =>
        match closure.name with
        | .null => { closure with name := .string name }
        | _ => closure
  | _ => return

def defineIn (scope : Nat) (place : Location) (name : String) (action : Eval Value) :
    Eval Value := do
  match ← Eval.ask fun store => store.scopes.module? scope with
  | none => Eval.problem place .noModuleScope
  | some module =>
      let value ← action
      nameFunction name value
      Eval.define module name value
      return .null

/-- `(def $name value)` binds a name in the module scope. -/
def define (engine : Engine) (scope : Nat) (place : Location) (body : List Expr) : Eval Value := do
  match body with
  | [target, value] =>
      let name ← variableName "def" 1 target
      defineIn scope place name (engine.interpret value scope)
  | _ => Eval.problem place (.takesExactly "def" 2 body.length)

/-- The names of parameter expressions, which are counted from a position on. -/
def parameterNames : Nat → List Expr → Eval (List String)
  | _, [] => return []
  | position, first :: rest => do
      let name ← variableName "fn" position first
      return name :: (← parameterNames (position + 1) rest)

def closure (scope : Nat) (name : Value) (parameters body : Expr) : Eval Value := do
  let names ← parameterNames 0 (← arrayItems "fn" 1 parameters)
  let parameters ← Eval.newTexts names
  Eval.change fun store => store.newClosure ⟨parameters, body, scope, name, []⟩

/-- `(defn $name [$a $b] body)` binds a name in the module scope to a function of that name. -/
def defineFunction (scope : Nat) (place : Location) (body : List Expr) : Eval Value := do
  match body with
  | [target, parameters, result] =>
      let name ← variableName "defn" 1 target
      let function ← closure scope (.string name) parameters result
      defineIn scope place name (return function)
  | _ => Eval.problem place (.takesExactly "defn" 3 body.length)

/-- `(fn [$a $b] body)` is a function that closes over the scope it stands in. -/
def function (scope : Nat) (place : Location) (body : List Expr) : Eval Value := do
  match body with
  | [parameters, result] => closure scope .null parameters result
  | _ => Eval.problem place (.takesExactly "fn" 2 body.length)

/-- `(if condition value other)` evaluates one of two expressions; the second may be left out. -/
def choose (engine : Engine) (scope : Nat) (place : Location) (body : List Expr) : Eval Value := do
  match body with
  | [condition, value] =>
      if ← truthy (← engine.interpret condition scope) then engine.interpret value scope
      else return .null
  | [condition, value, other] =>
      if ← truthy (← engine.interpret condition scope) then engine.interpret value scope
      else engine.interpret other scope
  | _ => Eval.problem place (.takesBetween "if" 2 3 body.length)

def keyword (word : String) (e : Expr) : Eval Unit :=
  match e.bareWord? with
  | none => Eval.problem e.place (.expectedKeyword word e.kind.name)
  | some found =>
      if found = word then return else Eval.problem e.place (.expectedKeyword word found)

/-- `(for $name in items body)` is the array of the values of a body for each item, each evaluated
in a scope of its own. -/
def each (engine : Engine) (scope : Nat) (place : Location) (body : List Expr) : Eval Value := do
  match body with
  | [target, word, items, result] =>
      let name ← variableName "for" 1 target
      keyword "in" word
      let source ← engine.interpret items scope
      Arguments.iterable items.place source
      let values ← engine.collectMap (← Engine.entries source) fun item => do
        let inner ← Eval.newScope scope
        Eval.define inner name item
        engine.interpret result inner
      Eval.newArray values
  | _ => Eval.problem place (.takesExactly "for" 4 body.length)

/-- The pairs of name and value that a `let` gives: one, or several in arrays. -/
def pairs (items : List Expr) : Eval (List (List Expr)) := do
  match items with
  | .array _ _ :: _ => items.mapM (arrayItems "let" 1)
  | _ => return [items]

/-- Binds a pair of name and value in a scope, in which the value is evaluated too. -/
def bindPair (engine : Engine) (scope : Nat) (place : Location) (pair : List Expr) : Eval Unit := do
  match pair with
  | [target, value] =>
      let name ← variableName "let" 2 target
      Eval.define scope name (← engine.interpret value scope)
  | _ => Eval.problem place (.takesExactly "let" 2 pair.length)

/-- `(let [[$a 1] [$b 2]] body)` evaluates a body in a new scope with names bound in order. -/
def bind (engine : Engine) (scope : Nat) (place : Location) (body : List Expr) : Eval Value := do
  match body with
  | [bindings, result] =>
      let items ← arrayItems "let" 1 bindings
      if items.isEmpty then Eval.problem place .expectedNonEmptyArray
      let pairs ← pairs items
      let inner ← Eval.newScope scope
      pairs.forM (bindPair engine inner place)
      engine.interpret result inner
  | _ => Eval.problem place (.takesExactly "let" 2 body.length)

/-- `(delete $a $b)` removes bindings up to the module scope; names that are not bound are left
out. -/
def delete (scope : Nat) : Nat → List Expr → Eval Value
  | _, [] => return .null
  | position, target :: rest => do
      let name ← variableName "delete" position target
      Eval.update fun store => { store with scopes := (store.scopes.delete scope name).2 }
      delete scope (position + 1) rest

/-- The first value that counts as the given truth, or else the last one. -/
def firstThat (engine : Engine) (scope : Nat) (truth : Bool) : Value → List Expr → Eval Value
  | last, [] => return last
  | _, first :: rest => do
      let value ← engine.interpret first scope
      if (← truthy value) == truth then return value else firstThat engine scope truth value rest

/-- `(eval text)` evaluates source text in the scope it stands in. -/
def evaluate (engine : Engine) (scope : Nat) (place : Location) (body : List Expr) :
    Eval Value := do
  match body with
  | [source] => do
      let text ← Arguments.string place (← engine.interpret source scope)
      engine.evaluate text scope
  | _ => Eval.problem place (.takesExactly "eval" 1 body.length)

def call (engine : Engine) (scope : Nat) (place : Location) (body : List Expr) :
    SpecialForm → Eval Value
  | .define => define engine scope place body
  | .defineFunction => defineFunction scope place body
  | .function => function scope place body
  | .choose => choose engine scope place body
  | .each => each engine scope place body
  | .bind => bind engine scope place body
  | .delete => delete scope 1 body
  | .and => firstThat engine scope false (.bool true) body
  | .or => firstThat engine scope true (.bool false) body
  | .evaluate => evaluate engine scope place body

end ShellLisp.Form
