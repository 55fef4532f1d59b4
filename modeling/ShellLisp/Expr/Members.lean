import ShellLisp.Expr.Parser
import ShellLisp.Text.Digit
import ShellLisp.Text.Search

/-!
# Members

The third pass over a tree: dotted names become member access. A call whose command starts with a
dot reads or writes the members that follow, `(.a.b $x)` and `(.a.b $x 1)`; a dotted variable, or a
dotted command that is no program name, reads the members of the variable before the first dot.
-/

namespace ShellLisp.Expr
open Text

def readMember : String := "get"

def writeMember : String := "set"

def segments (name : String) : List String := (split ['.'] name.toList).map String.ofList

def isPath (name : String) : Bool := name.toList.any fun c => c = '/' || c = '\\'

/-- Whether a name is that of a program: a path, or a name with a part after a dot that starts with
a digit. -/
def isProgram (name : String) : Bool :=
  isPath name || (segments name).tail.any fun part => (part.toList.head?.map isDigit).getD false

def isDotted (name : String) : Bool := name.toList.contains '.'

def isMemberCommand (name : String) : Bool := name.toList.head? == some '.' && !isPath name

/-- The parts of a member path as strings; none may be empty. -/
def keys (place : Location) (parts : List String) : Except Failure (List Expr) :=
  if parts.any (·.isEmpty) then .error (.at place .expectedNonEmptyString)
  else .ok (parts.map (ofText place))

def memberLookup (place : Location) (name : String) : Except Failure Expr :=
  match segments name with
  | [] => .error (.at place .expectedNonEmptyString)
  | head :: parts => do
      if head.isEmpty then .error (.at place .expectedNonEmptyString)
      let path ← keys place parts
      return .call place (.command place readMember :: .variable place head :: path)

/-- The arguments of a member command, and the path after its first dot, as a call's items. -/
def memberItems (place commandPlace : Location) (name : String) (arguments : List Expr) :
    Except Failure (List Expr × List Expr) := do
  let count := arguments.length + 1
  if count < 2 ∨ 3 < count then .error (.at place (.takesBetween ". access" 2 3 count))
  let path ← keys commandPlace (segments (String.ofList name.toList.tail))
  return ([.command place (if count = 2 then readMember else writeMember)], path)

mutual

def withMembers : Expr → Except Failure Expr
  | .call place (.command commandPlace name :: arguments) =>
      if isMemberCommand name then do
        let (function, path) ← memberItems place commandPlace name arguments
        let inner ← withMembersAll arguments
        return .call place (function ++ inner.take 1 ++ path ++ inner.drop 1)
      else do
        let head ← withMembers (.command commandPlace name)
        let inner ← withMembersAll arguments
        return .call place (head :: inner)
  | .call place body => do return .call place (← withMembersAll body)
  | .array place body => do return .array place (← withMembersAll body)
  | .map place body => do return .map place (← withMembersAll body)
  | .command place name =>
      if isDotted name && !isProgram name then memberLookup place name
      else .ok (.command place name)
  | .variable place name =>
      if isDotted name then memberLookup place name else .ok (.variable place name)
  | .value place literal => .ok (.value place literal)

def withMembersAll : List Expr → Except Failure (List Expr)
  | [] => .ok []
  | e :: rest => do
      let first ← e.withMembers
      let others ← withMembersAll rest
      return first :: others

end

end ShellLisp.Expr
