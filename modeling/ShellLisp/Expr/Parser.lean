import ShellLisp.Expr

/-!
# Parsing

Tokens become expressions by a machine that keeps the forms still open, innermost first. Each line
outside all brackets is one statement: a line of several expressions, or of one bare word, is a
call, and several statements are joined under `do`.
-/

namespace ShellLisp

/-- A form whose closing bracket has not been met; its items are held in reverse. -/
structure OpenForm where
  opener : Char
  place : Location
  items : List Expr

/-- The state of parsing: open forms, the items of the current line, and the lines before it. -/
structure Parsing where
  forms : List OpenForm
  line : List Expr
  lines : List (List Expr)

namespace Parsing

def start : Parsing := ⟨[], [], []⟩

/-- Adds an expression to the innermost open form, or to the line when no form is open. -/
def add (state : Parsing) (e : Expr) : Parsing :=
  match state.forms with
  | [] => { state with line := e :: state.line }
  | form :: outer => { state with forms := { form with items := e :: form.items } :: outer }

end Parsing

def closerOf (opener : Char) : Char :=
  if opener = '(' then ')' else if opener = '[' then ']' else '}'

def OpenForm.close (form : OpenForm) : Except Failure Expr :=
  let body := form.items.reverse
  if form.opener = '(' then
    if body.isEmpty then .error (.at form.place .emptyCall) else .ok (.call form.place body)
  else if form.opener = '[' then .ok (.array form.place body)
  else if body.length % 2 = 1 then .error (.at form.place .unevenMap)
  else .ok (.map form.place body)

def Lexeme.leaf? (place : Location) : Lexeme → Option Expr
  | .word text => some (.value place (.word text))
  | .quoted text => some (.value place (.quoted text))
  | .variable name => some (.variable place name)
  | .number value spelling => some (.value place (.number value spelling))
  | .null => some (.value place .null)
  | .bool value => some (.value place (.bool value))
  | .bracket _ => none
  | .newline => none

namespace Parsing

def bracket (state : Parsing) (place : Location) (symbol : Char) : Except Failure Parsing :=
  if symbol = '(' ∨ symbol = '[' ∨ symbol = '{' then
    .ok { state with forms := ⟨symbol, place, []⟩ :: state.forms }
  else
    match state.forms with
    | form :: outer =>
        if symbol = closerOf form.opener then
          form.close.map fun e => ({ state with forms := outer }).add e
        else .error (.at place (.unexpected symbol))
    | [] => .error (.at place (.unexpected symbol))

/-- Reads a newline token, which only makes sense outside all forms. -/
def newline (state : Parsing) (place : Location) : Except Failure Parsing :=
  match state.forms with
  | [] => .ok ⟨[], [], state.line :: state.lines⟩
  | _ :: _ => .error (.at place (.unknownToken TokenKind.newline.name))

def step (state : Parsing) (token : Token) : Except Failure Parsing :=
  match token.lexeme with
  | .bracket symbol => state.bracket token.place symbol
  | .newline => state.newline token.place
  | lexeme =>
      match lexeme.leaf? token.place with
      | some e => .ok (state.add e)
      | none => .ok state

/-- Reads one token, keeping the number of open forms within a limit. -/
def stepWithin (limit : Nat) (state : Parsing) (token : Token) : Except Failure Parsing := do
  let after ← state.step token
  if limit < after.forms.length then .error .tooDeep else .ok after

def finishedLines (state : Parsing) : List (List Expr) :=
  (state.line :: state.lines).reverse.map List.reverse

end Parsing

namespace Expr

/-- One line of a program as a single expression. -/
def statement : List Expr → Expr
  | [e] => if e.isBareWord then .call e.place [e] else e
  | body => .call ((body.head?.map place).getD .nowhere) body

/-- The name of the function that evaluates its arguments in order. -/
def sequenceName : String := "do"

/-- Several statements as one expression; none for an empty program. -/
def program : List Expr → Option Expr
  | [] => none
  | [e] => some e
  | first :: rest => some (.call first.place (.command .nowhere sequenceName :: first :: rest))

def ofParsing (state : Parsing) (lastPlace : Location) : Except Failure (Option Expr) :=
  match state.forms with
  | form :: _ => .error (.at lastPlace (.unterminatedForm (closerOf form.opener)))
  | [] => .ok (program ((state.finishedLines.filter (!·.isEmpty)).map statement))

def lastPlace (tokens : List Token) : Location := (tokens.getLast?.map (·.place)).getD .nowhere

/-- The expression that tokens write; none when there are no tokens. -/
def parse (tokens : List Token) : Except Failure (Option Expr) := do
  let state ← tokens.foldlM Parsing.step .start
  ofParsing state (lastPlace tokens)

/-- The expression that tokens write, when its brackets are not nested too deep. -/
def parseWithin (limit : Nat) (tokens : List Token) : Except Failure (Option Expr) := do
  let state ← tokens.foldlM (Parsing.stepWithin limit) .start
  ofParsing state (lastPlace tokens)

end Expr

theorem stepWithin_ok {limit : Nat} {state after : Parsing} {token : Token}
    (done : state.stepWithin limit token = .ok after) : state.step token = .ok after := by
  unfold Parsing.stepWithin at done
  obtain ⟨next, action, fits⟩ := exists_of_bind_ok done
  split at fits
  · cases fits
  · exact action.trans fits

theorem foldlM_step_of_stepWithin {limit : Nat} {tokens : List Token} {state after : Parsing}
    (done : tokens.foldlM (Parsing.stepWithin limit) state = .ok after) :
    tokens.foldlM Parsing.step state = .ok after := by
  induction tokens generalizing state with
  | nil => exact done
  | cons token rest ih =>
      simp only [List.foldlM_cons] at done ⊢
      obtain ⟨next, action, later⟩ := exists_of_bind_ok done
      simp only [stepWithin_ok action, bind, Except.bind]
      exact ih later

theorem parse_of_parseWithin {limit : Nat} {tokens : List Token} {result : Option Expr}
    (done : Expr.parseWithin limit tokens = .ok result) : Expr.parse tokens = .ok result := by
  unfold Expr.parseWithin at done
  unfold Expr.parse
  obtain ⟨state, action, finished⟩ := exists_of_bind_ok done
  simp only [foldlM_step_of_stepWithin action, bind, Except.bind]
  exact finished

end ShellLisp
