import ShellLisp.Session

/-!
# Arguments of library functions

How many arguments a function takes and of which type they must be. A wrong argument is a problem at
the place of the call.
-/

namespace ShellLisp.Arguments

def one (callee : String) (place : Location) : List Value → Eval Value
  | [first] => return first
  | arguments => Eval.problem place (.takesExactly callee 1 arguments.length)

def two (callee : String) (place : Location) : List Value → Eval (Value × Value)
  | [first, second] => return (first, second)
  | arguments => Eval.problem place (.takesExactly callee 2 arguments.length)

def three (callee : String) (place : Location) : List Value → Eval (Value × Value × Value)
  | [first, second, third] => return (first, second, third)
  | arguments => Eval.problem place (.takesExactly callee 3 arguments.length)

def empty (callee : String) (place : Location) : List Value → Eval Unit
  | [] => return
  | arguments => Eval.problem place (.takesExactly callee 0 arguments.length)

def oneOrTwo (callee : String) (place : Location) : List Value → Eval (Value × Option Value)
  | [first] => return (first, none)
  | [first, second] => return (first, some second)
  | arguments => Eval.problem place (.takesBetween callee 1 2 arguments.length)

def atLeast (callee : String) (least : Nat) (place : Location) (arguments : List Value) :
    Eval Unit :=
  if arguments.length < least then Eval.problem place (.takesAtLeast callee least arguments.length)
  else return

def string (place : Location) : Value → Eval String
  | .string text => return text
  | _ => Eval.problem place .expectedString

def nonEmptyString (place : Location) : Value → Eval String
  | .string text =>
      if text.isEmpty then Eval.problem place .expectedNonEmptyString else return text
  | _ => Eval.problem place .expectedNonEmptyString

/-- The argument as a number; true and false are none. -/
def number (place : Location) : Value → Eval Number
  | .number n => return n
  | _ => Eval.problem place .expectedNumber

def iterable (place : Location) (value : Value) : Eval Unit :=
  if value.isIterable then return else Eval.problem place .expectedIterable

def function (place : Location) (value : Value) : Eval Unit :=
  if value.isCallable then return else Eval.problem place .expectedFunction

end ShellLisp.Arguments
