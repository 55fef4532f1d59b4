import ShellLisp.Evaluation.Printed

/-!
# Members of values

Reading and writing one step of a path into a value. Reading never complains about what is missing:
it reads as null. Writing changes a map, an element or the end of an array, or an attribute of an
object or a function. A host function that is read from a map comes bound to that map. The parts that
the evaluator keeps in its functions, and the methods that the host gives its values, are members too,
but not followed any further. A value that a program writes in the place of such a part is read again;
a call of the function is then not followed.
-/

namespace ShellLisp.Member
open Text

/-- The integer that a key spells, when it is spelled like one: dashes before digits. -/
def spelledIndex (key : String) : Except Fault (Option Int) :=
  let digits := trimStart (· = '-') key.toList
  if digits = [] ∨ !digits.all isDigit then .ok none
  else
    let dashes := key.length - digits.length
    let decimal := digits.takeWhile isDecimalDigit
    if 1 < dashes then .error (.invalidInteger (literal key))
    else if Fault.digitLimit < decimal.length then .error (.tooManyDigitsRead decimal.length)
    else if decimal.length < digits.length then .error (.invalidInteger (literal key))
    else .ok (some (Binary64.signed (dashes = 1) (digitsValue digits)))

/-- The position that a key means in a sequence; none when it is no position. -/
def index? : Value → Except Fault (Option Int)
  | .number (.int n) => .ok (some n)
  | .string key => spelledIndex key
  | _ => .ok none

def position? (length : Nat) (index : Int) : Option Nat :=
  if 0 ≤ index then if index < length then some index.toNat else none
  else if -index ≤ length then some (length + index).toNat
  else none

/-- The element of a row under a key, or null. -/
def element {α : Type} (items : List α) (value : α → Value) (key : Value) : Except Fault Value := do
  match ← index? key with
  | none => return .null
  | some index => return ((position? items.length index).bind (items[·]?)).elim .null value

def isHidden (name : String) : Bool := name.toList.head? == some '_'

def textMembers : List String := [
  "capitalize", "casefold", "center", "count", "encode", "endswith", "expandtabs", "find", "format",
  "format_map", "index", "isalnum", "isalpha", "isascii", "isdecimal", "isdigit", "isidentifier",
  "islower", "isnumeric", "isprintable", "isspace", "istitle", "isupper", "join", "ljust", "lower",
  "lstrip", "maketrans", "partition", "removeprefix", "removesuffix", "replace", "rfind", "rindex",
  "rjust", "rpartition", "rsplit", "rstrip", "split", "splitlines", "startswith", "strip",
  "swapcase", "title", "translate", "upper", "zfill"]

/-- The members that integers have of themselves and those that are computed. -/
def integerMembers : List String × List String :=
  (["as_integer_ratio", "bit_count", "bit_length", "conjugate", "from_bytes", "to_bytes"],
    ["denominator", "imag", "numerator", "real"])

def floatMembers : List String × List String :=
  (["as_integer_ratio", "conjugate", "fromhex", "hex", "is_integer"], ["imag", "real"])

/-- The members that no one can write on a value: those of its own, and those that are computed. -/
def fixedMembers : Value → List String × List String
  | .string _ => (textMembers, [])
  | .bool _ => integerMembers
  | .number (.int _) => integerMembers
  | .number (.float _) => floatMembers
  | .tuple _ => (["count", "index"], [])
  | .library _ | .form _ | .closure _ => (["kind"], [])
  | .sequence _ => (["map", "filter"], [])
  | _ => ([], [])

/-- The members in which the evaluator keeps what a function is made of, and which programs can
replace. -/
def parts : Value → List String
  | .closure _ => ["body", "scope", "evaluator"]
  | .bound _ => ["receiver", "function"]
  | _ => []

/-- The members that are parts of the evaluator or of the host, and no values. -/
def internalMembers : Value → List String
  | .closure _ => ["body", "scope", "evaluator"]
  | .library _ | .form _ => ["impl"]
  | .bound _ => ["function"]
  | .complex => ["conjugate", "imag", "real"]
  | _ => []

/-- Whether a member is a part or a method, which nothing follows. Nothing but its elements is read of
a text or a tuple. -/
def isInternal : Value → String → Bool
  | .string _, _ | .tuple _, _ => false
  | value, name => (internalMembers value).contains name || (fixedMembers value).1.contains name

def attributeOf (store : Store) (value : Value) (name : String) : Value :=
  match value with
  | .bool b => wholeAttribute (if b then 1 else 0)
  | .number (.int n) => wholeAttribute n
  | .number (.float x) =>
      if name = "real" then .number (.float x)
      else if name = "imag" then .number (.float (Binary64.zero false))
      else .null
  | .library ref => if name = "name" then (store.libraries[ref]?.map (·.name)).getD .null else .null
  | .form ref => if name = "name" then (store.forms[ref]?.map (·.name)).getD .null else .null
  | .closure ref =>
      if name = "name" then (store.closures[ref]?.map (·.name)).getD .null
      else if name = "params" then (store.closures[ref]?.map (·.parameters)).getD .null
      else .null
  | .bound ref =>
      if name = "receiver" then (store.bounds[ref]?.map (·.receiver)).getD .null else .null
  | .sequence ref =>
      if name = "label" then (store.sequences[ref]?.map (·.label)).getD .null else .null
  | .object ref => (List.lookup name (store.object ref)).getD .null
  | .host function => (List.lookup name (store.hosts function)).getD .null
  | _ => .null
where
  wholeAttribute (n : Int) : Value :=
    if name = "real" ∨ name = "numerator" then .int n
    else if name = "imag" then .int 0
    else if name = "denominator" then .int 1
    else .null

/-- What was written in the place of a part. -/
def replacedPart? (store : Store) (value : Value) (name : String) : Option Value :=
  if name ∈ parts value then List.lookup name (store.replacedParts value) else none

/-- One step of a path; what is missing reads as null. Parts of the evaluator and methods of the host
are not missing, but not followed, unless a value was written in their place. -/
def read (store : Store) (container key : Value) : Except Fault Value :=
  match container with
  | .null => .ok .null
  | .map ref => do
      key.checkKey
      return ((store.map ref).get? key).getD .null
  | .array ref => element (store.array ref).toList id key
  | .tuple items => element items id key
  | .string text => element text.toList (fun c => .string c.toString) key
  | other =>
      match key with
      | .string name =>
          if isHidden name then .ok .null
          else
            match replacedPart? store other name with
            | some value => .ok value
            | none =>
                if isInternal other name then .error (.internal other.typeName name)
                else .ok (attributeOf store other name)
      | _ => .ok .null

/-- What a path leads to, and what its last step was taken from. -/
def follow (container : Value) : List Value → Option Value → Eval (Value × Option Value)
  | [], last => return (container, last)
  | key :: rest, _ => do
      let next ← Eval.lift (read (← get).store container key)
      follow next rest (some container)

/-- What a path leads to; a host function at its end is bound to the map it was read from. -/
def followAndBind (container : Value) (keys : List Value) : Eval Value := do
  let (found, last) ← follow container keys none
  match found, last with
  | .host function, some (.map ref) =>
      if function.takesReceiver then
        Eval.change fun store => store.newBound ⟨.map ref, function, []⟩
      else return found
  | _, _ => return found

def unwritable (value : Value) (name : String) : Fault :=
  let (own, computed) := fixedMembers value
  if (internalMembers value).contains name then .internal value.typeName name
  else if own.contains name then .readOnlyAttribute value.typeName name
  else if computed.contains name then
    .notWritable (match value with
      | .bool _ => "int"
      | other => other.typeName) name
  else .noAttribute value.typeName name

def writeAttribute (target : Value) (name : String) (value : Value) : Eval Unit :=
  match target, name with
  | .object ref, _ => Eval.update fun store => store.putAttribute ref name value
  | .library ref, "name" => Eval.update fun store => store.renameLibrary ref value
  | .form ref, "name" => Eval.update fun store => store.renameForm ref value
  | .closure ref, "name" =>
      Eval.update fun store => store.modifyClosure ref fun closure => { closure with name := value }
  | .closure ref, "params" =>
      Eval.update fun store =>
        store.modifyClosure ref fun closure => { closure with parameters := value }
  | .sequence ref, "label" =>
      Eval.update fun store =>
        store.modifySequence ref fun sequence => { sequence with label := value }
  | .host .len, _ => Eval.fault (unwritable target name)
  | .host function, _ => Eval.update fun store => store.putHostAttribute function name value
  | _, _ =>
      if name ∈ parts target then
        Eval.update fun store => store.replacePart target name value
      else Eval.fault (unwritable target name)

/-- Writes an element of an array; the position just behind the last element adds one. -/
def writeElement (ref : Nat) (key value : Value) (place : Location) : Eval Unit := do
  match ← Eval.lift (index? key) with
  | none =>
      let shown ← Eval.print key
      Eval.problem place (.notAnIndex shown)
  | some index =>
      let length ← Eval.ask fun store => (store.array ref).size
      if index = length then Eval.update fun store => store.modifyArray ref (·.push value)
      else if (twoTo 63 : Int) ≤ index ∨ index < -(twoTo 63 : Int) then
        Eval.fault .indexTooLarge
      else
        match position? length index with
        | some position =>
            Eval.update fun store => store.modifyArray ref (·.setIfInBounds position value)
        | none => Eval.fault .assignmentOutOfRange

def refuse (target key : Value) (place : Location) : Eval Unit := do
  let shownKey ← Eval.print key
  let shownTarget ← Eval.print target
  Eval.problem place (.cannotSet shownKey shownTarget)

def write (target key value : Value) (place : Location) : Eval Unit :=
  match target with
  | .map ref => do
      Eval.lift key.checkKey
      Eval.update fun store => store.putKey ref key value
  | .array ref => writeElement ref key value place
  | .null => refuse target key place
  | other =>
      match key with
      | .string name =>
          if isHidden name then refuse other key place else writeAttribute other name value
      | _ => refuse other key place

/-- Writes the value at the end of a path: the last of the arguments is the value, the rest are the
keys. -/
def writeAt (target : Value) (place : Location) : List Value → Eval Unit
  | [key, value] => write target key value place
  | key :: rest => do
      let next ← Eval.lift (read (← get).store target key)
      writeAt next place rest
  | [] => return

end ShellLisp.Member
