import ShellLisp.Problem
import ShellLisp.Text.Quoted
import ShellLisp.Token

/-!
# Expressions

The expression tree of a program: calls, arrays and maps hold other expressions, and values,
commands and variables are leaves. This module has the tree, its written form, and structural
equality, which does not look at places or at the spelling of numbers.
-/

namespace ShellLisp

inductive Literal
  | null
  | bool (value : Bool)
  | number (value : Number) (spelling : String)
  | word (text : String)
  | quoted (text : String)
  deriving Inhabited

inductive Expr
  | call (place : Location) (body : List Expr)
  | array (place : Location) (body : List Expr)
  | map (place : Location) (body : List Expr)
  | value (place : Location) (literal : Literal)
  | command (place : Location) (name : String)
  | variable (place : Location) (name : String)
  deriving Inhabited

namespace Literal

def spelling : Literal → List Char
  | .null => "null".toList
  | .bool true => "true".toList
  | .bool false => "false".toList
  | .number _ spelling => spelling.toList
  | .word text => text.toList
  | .quoted text => Text.quoted text.toList

/-- Whether two literals are the same value of the same type, quoted alike. -/
def same : Literal → Literal → Bool
  | .null, .null => true
  | .bool a, .bool b => a == b
  | .number (.int n) _, .number (.int m) _ => n == m
  | .number (.float x) _, .number (.float y) _ => (Number.float x).equal (.float y)
  | .word a, .word b => a == b
  | .quoted a, .quoted b => a == b
  | _, _ => false

end Literal

namespace Expr

def place : Expr → Location
  | .call place _ => place
  | .array place _ => place
  | .map place _ => place
  | .value place _ => place
  | .command place _ => place
  | .variable place _ => place

def kind : Expr → NodeKind
  | .call _ _ => .call
  | .array _ _ => .array
  | .map _ _ => .map
  | .value _ _ => .value
  | .command _ _ => .command
  | .variable _ _ => .variable

/-- The text of an unquoted word, whether or not it is known to be a command. -/
def bareWord? : Expr → Option String
  | .value _ (.word text) => some text
  | .command _ name => some name
  | _ => none

def isBareWord (e : Expr) : Bool := e.bareWord?.isSome

/-- How the source text spells the expression, where a command gets its argument from the
spelling. -/
def numeralSpelling? : Expr → Option String
  | .value _ (.number _ spelling) => some spelling
  | _ => none

def ofText (place : Location) (text : String) : Expr := .value place (.quoted text)

mutual

def chars : Expr → List Char
  | .call _ body => '(' :: bodyChars body ++ [')']
  | .array _ body => '[' :: bodyChars body ++ [']']
  | .map _ body => '{' :: bodyChars body ++ ['}']
  | .value _ literal => literal.spelling
  | .command _ name => name.toList
  | .variable _ name => '$' :: name.toList

def bodyChars : List Expr → List Char
  | [] => []
  | e :: rest => e.chars ++ restChars rest

def restChars : List Expr → List Char
  | [] => []
  | e :: rest => ' ' :: (e.chars ++ restChars rest)

end

def text (e : Expr) : String := String.ofList e.chars

mutual

/-- Structural equality: same kinds, same literals, places not looked at. -/
def same : Expr → Expr → Bool
  | .call _ a, .call _ b => sameAll a b
  | .array _ a, .array _ b => sameAll a b
  | .map _ a, .map _ b => sameAll a b
  | .value _ a, .value _ b => a.same b
  | .command _ a, .command _ b => a == b
  | .variable _ a, .variable _ b => a == b
  | _, _ => false

def sameAll : List Expr → List Expr → Bool
  | [], [] => true
  | a :: as, b :: bs => a.same b && sameAll as bs
  | _, _ => false

end

mutual

def size : Expr → Nat
  | .call _ body => sizeAll body + 1
  | .array _ body => sizeAll body + 1
  | .map _ body => sizeAll body + 1
  | _ => 1

def sizeAll : List Expr → Nat
  | [] => 0
  | e :: rest => e.size + sizeAll rest

end

mutual

def height : Expr → Nat
  | .call _ body => heightAll body + 1
  | .array _ body => heightAll body + 1
  | .map _ body => heightAll body + 1
  | _ => 1

def heightAll : List Expr → Nat
  | [] => 0
  | e :: rest => max e.height (heightAll rest)

end

def checkDepth (limit : Nat) (e : Expr) : Except Failure Expr :=
  if limit < e.height then .error .tooDeep else .ok e

theorem size_pos (e : Expr) : 0 < e.size := by
  cases e <;> simp [size]

theorem size_le_sizeAll {e : Expr} {body : List Expr} (member : e ∈ body) :
    e.size ≤ sizeAll body := by
  induction body with
  | nil => cases member
  | cons first rest ih =>
      rw [sizeAll]
      rcases List.mem_cons.mp member with rfl | later
      · omega
      · have := ih later
        omega

end Expr

end ShellLisp
