import ShellLisp.Location
import ShellLisp.Number

/-!
# Tokens

The located words of a source text. An unquoted word stays a word here: whether it names a command,
is an operator or is plain text is decided when expressions are built.
-/

namespace ShellLisp

inductive TokenKind
  | string
  | variable
  | number
  | literal
  | symbol
  | newline
  deriving DecidableEq, Repr

def TokenKind.name : TokenKind → String
  | .string => "string"
  | .variable => "variable"
  | .number => "number"
  | .literal => "literal"
  | .symbol => "symbol"
  | .newline => "newline"

/-- What a token says, without its place. A number keeps its spelling. -/
inductive Lexeme
  | word (text : String)
  | quoted (text : String)
  | variable (name : String)
  | number (value : Number) (spelling : String)
  | null
  | bool (value : Bool)
  | bracket (symbol : Char)
  | newline

def operators : List String := ["|", "|>", ";"]

namespace Lexeme

def kind : Lexeme → TokenKind
  | .word _ => .string
  | .quoted _ => .string
  | .variable _ => .variable
  | .number _ _ => .number
  | .null => .literal
  | .bool _ => .literal
  | .bracket _ => .symbol
  | .newline => .newline

def isOperator : Lexeme → Bool
  | .word text => operators.contains text
  | _ => false

def isNewline : Lexeme → Bool
  | .newline => true
  | _ => false

end Lexeme

/-- A word of a source text and where it starts. -/
structure Token where
  lexeme : Lexeme
  place : Location

end ShellLisp
