/-!
# Library functions

The functions and special forms that a session starts with, as names of what they do, and the tables
that say under which names programs find them. Several names may stand for one function.
-/

namespace ShellLisp

inductive CoreFunction
  | add
  | subtract
  | multiply
  | divide
  | modulo
  | power
  | equal
  | notEqual
  | less
  | lessOrEqual
  | greater
  | greaterOrEqual
  | not
  | xor
  | isNull
  | typeOf
  | get
  | set
  | sequence
  | echo
  | apply
  | changeDirectory
  | workingDirectory
  deriving DecidableEq, Repr

inductive ArrayFunction
  | range
  | from
  | toArray
  | map
  | flatMap
  | filter
  | fold
  | head
  | tail
  | init
  | last
  | take
  | drop
  | length
  | join
  | reverse
  | sort
  | concat
  deriving DecidableEq, Repr

inductive StringFunction
  | length
  | split
  | trim
  | upper
  | lower
  | replace
  | startsWith
  | endsWith
  | contains
  | concat
  | toJson
  deriving DecidableEq, Repr

inductive ParseFunction
  | words
  | lines
  | table
  | json
  | number
  deriving DecidableEq, Repr

inductive ConsoleFunction
  | print
  | error
  deriving DecidableEq, Repr

inductive FileFunction
  | read
  | write
  | append
  | exists
  | isDirectory
  | list
  | remove
  deriving DecidableEq, Repr

inductive SessionCommand
  | exit
  | clearResults
  | clearDefinitions
  | listDefinitions
  deriving DecidableEq, Repr

/-- A function that is called with evaluated arguments. -/
inductive LibraryFunction
  | core (function : CoreFunction)
  | array (function : ArrayFunction)
  | string (function : StringFunction)
  | parse (function : ParseFunction)
  | console (function : ConsoleFunction)
  | file (function : FileFunction)
  | session (command : SessionCommand)
  deriving DecidableEq, Repr

/-- A form that is given its argument expressions. -/
inductive SpecialForm
  | define
  | defineFunction
  | function
  | choose
  | each
  | bind
  | delete
  | and
  | or
  | evaluate
  deriving DecidableEq, Repr

def specialForms : List (String × SpecialForm) := [
  ("def", .define), ("defn", .defineFunction), ("fn", .function), ("if", .choose), ("for", .each),
  ("let", .bind), ("delete", .delete), ("and", .and), ("or", .or), ("eval", .evaluate)]

def coreFunctions : List (String × LibraryFunction) := [
  ("+", .core .add), ("-", .core .subtract), ("*", .core .multiply), ("/", .core .divide),
  ("%", .core .modulo), ("modulus", .core .modulo), ("^", .core .power), ("==", .core .equal),
  ("!=", .core .notEqual), ("<", .core .less), ("<=", .core .lessOrEqual), (">", .core .greater),
  (">=", .core .greaterOrEqual), ("not", .core .not), ("xor", .core .xor), ("nil?", .core .isNull),
  ("typeOf", .core .typeOf), ("get", .core .get), ("set", .core .set), ("do", .core .sequence),
  ("echo", .core .echo), ("apply", .core .apply), ("range", .array .range),
  ("toArray", .array .toArray), ("cd", .core .changeDirectory), ("cwd", .core .workingDirectory)]

/-- The members of the library maps, under the names of the maps. -/
def libraryMaps : List (String × List (String × LibraryFunction)) := [
  ("Array", [
    ("range", .array .range), ("from", .array .from), ("toArray", .array .toArray),
    ("map", .array .map), ("flatMap", .array .flatMap), ("filter", .array .filter),
    ("fold", .array .fold), ("head", .array .head), ("tail", .array .tail), ("init", .array .init),
    ("last", .array .last), ("take", .array .take), ("drop", .array .drop),
    ("length", .array .length), ("join", .array .join), ("reverse", .array .reverse),
    ("sort", .array .sort), ("concat", .array .concat)]),
  ("String", [
    ("length", .string .length), ("split", .string .split), ("trim", .string .trim),
    ("upper", .string .upper), ("lower", .string .lower), ("replace", .string .replace),
    ("startsWith", .string .startsWith), ("endsWith", .string .endsWith),
    ("contains", .string .contains), ("concat", .string .concat), ("toJson", .string .toJson)]),
  ("Parse", [
    ("words", .parse .words), ("lines", .parse .lines), ("table", .parse .table),
    ("json", .parse .json), ("number", .parse .number)]),
  ("IO", [("print", .console .print), ("error", .console .error)]),
  ("File", [
    ("read", .file .read), ("write", .file .write), ("append", .file .append),
    ("exists", .file .exists), ("isDirectory", .file .isDirectory), ("list", .file .list),
    ("remove", .file .remove)])]

def sessionCommands : List (String × SessionCommand) := [
  ("exit", .exit), ("clearResults", .clearResults), ("clearDefs", .clearDefinitions),
  ("listDefs", .listDefinitions)]

end ShellLisp
