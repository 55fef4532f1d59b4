import ShellLisp.Process.Basic
import ShellLisp.Process.Script

/-!
# The state of a shell

What a shell keeps between the commands of a script, and what the words of a script stand for in it:
a parameter gives its value, which is cut at white space unless it stands in quotes. The main
statement is that a variable that was set has its value.
-/

namespace ShellLisp.Process

structure ShellState where
  files : FileTree
  directory : Path
  bindings : List (String × String)
  /-- The variables that launched commands see. -/
  environment : List (String × String)
  /-- What the shell calls itself in messages. -/
  name : String
  arguments : List String
  /-- How the last pipeline ended. -/
  status : Int
  /-- How the shell ended, if it has. -/
  ending : Option Int

def setVariable (name value : String) (bindings : List (String × String)) :
    List (String × String) :=
  (name, value) :: bindings.filter fun entry => entry.1 ≠ name

theorem lookup_setVariable (name value : String) (bindings : List (String × String)) :
    (setVariable name value bindings).lookup name = some value := by
  simp [setVariable]

namespace ShellState

def speaker (state : ShellState) (line : Nat) : String :=
  state.name ++ ": " ++ toString line ++ ": "

def processNumber : String := "4242"

def parameter (state : ShellState) (name : String) : String :=
  match name with
  | "@" | "*" => " ".intercalate state.arguments
  | "#" => toString state.arguments.length
  | "?" => toString state.status
  | "$" => processNumber
  | "0" => state.name
  | _ =>
      match name.toNat? with
      | some position => state.arguments.getD (position - 1) ""
      | none => (state.bindings.lookup name).getD ""

def assign (state : ShellState) (name value : String) : ShellState :=
  { state with bindings := setVariable name value state.bindings }

/-- The fields of a word so far: the complete ones in reverse, and the open one. -/
abbrev Fields := List (List Char) × Option (List Char)

def addText (fields : Fields) (text : List Char) : Fields :=
  (fields.1, some (fields.2.getD [] ++ text))

def closeField (fields : Fields) : Fields :=
  match fields.2 with
  | some last => (last :: fields.1, none)
  | none => fields

/-- Fields with texts added, each of which but the last completes a field. -/
def addTexts (fields : Fields) : List (List Char) → Fields
  | [] => fields
  | [last] => addText fields last
  | first :: rest => addTexts (closeField (addText fields first)) rest

/-- Fields with a value added that is cut at white space. -/
def addSplit (fields : Fields) (value : List Char) : Fields :=
  let opened := if (value.head?.map Text.isBlank).getD false then closeField fields else fields
  let added := addTexts opened (Text.words value)
  if (value.getLast?.map Text.isBlank).getD false then closeField added else added

def addPart (state : ShellState) (fields : Fields) : WordPart → Fields
  | .text chars => addText fields chars
  | .parameter "@" true => addTexts fields (state.arguments.map String.toList)
  | .parameter name true => addText fields (state.parameter name).toList
  | .parameter name false => addSplit fields (state.parameter name).toList

def expand (state : ShellState) (word : List WordPart) : List String :=
  if state.arguments.isEmpty && word == [.text [], .parameter "@" true] then []
  else
    let fields := closeField (word.foldl state.addPart ([], none))
    fields.1.reverse.map String.ofList

/-- The text that a word stands for where it is not cut. -/
def expandWhole (state : ShellState) (word : List WordPart) : String :=
  String.join (word.map fun part => match part with
    | .text chars => String.ofList chars
    | .parameter name _ => state.parameter name)

/-- The variable that a word sets and the word of its value, if it sets one. -/
def assignment? : List WordPart → Option (String × List WordPart)
  | .text chars :: rest =>
      let name := chars.takeWhile Script.isNameChar
      match chars.drop name.length with
      | '=' :: value =>
          if (name.head?.map fun c => !c.isDigit).getD false then
            some (String.ofList name, .text value :: rest)
          else none
      | _ => none
  | _ => none

end ShellState

end ShellLisp.Process
