/-!
# Faults

What an operation on data can report: operands of the wrong type, a value out of range, a missing
file. A fault knows its kind and its text, not where in a program it happened. Most kinds are
recoverable, which means that a library call turns them into a problem of the program at the place
of the call; the others end the evaluation as they are.

One kind is no report to the program. Some members of values are parts of the evaluator itself, such
as the body of a function, or methods of the host. What becomes of a program that asks for one is not
followed: its evaluation ends there with an internal fault.
-/

namespace ShellLisp

inductive FaultKind
  | type
  | value
  | decoding
  | zeroDivision
  | overflow
  | index
  | key
  | attribute
  | missingFile
  | notDirectory
  | isDirectory
  | existingFile
  | forbidden
  | system
  | state
  | memory
  | internal
  deriving DecidableEq, Repr

def FaultKind.name : FaultKind → String
  | .type => "TypeError"
  | .value => "ValueError"
  | .decoding => "UnicodeDecodeError"
  | .zeroDivision => "ZeroDivisionError"
  | .overflow => "OverflowError"
  | .index => "IndexError"
  | .key => "KeyError"
  | .attribute => "AttributeError"
  | .missingFile => "FileNotFoundError"
  | .notDirectory => "NotADirectoryError"
  | .isDirectory => "IsADirectoryError"
  | .existingFile => "FileExistsError"
  | .forbidden => "PermissionError"
  | .system => "OSError"
  | .state => "RuntimeError"
  | .memory => "MemoryError"
  | .internal => "internal"

/-- Whether a library call turns a fault of this kind into a problem of the program. -/
def FaultKind.isRecoverable : FaultKind → Bool
  | .state => false
  | .memory => false
  | .internal => false
  | _ => true

def FaultKind.isOfFiles : FaultKind → Bool
  | .missingFile | .notDirectory | .isDirectory | .existingFile | .forbidden | .system => true
  | _ => false

structure Fault where
  kind : FaultKind
  text : String
  deriving DecidableEq, Repr

namespace Fault

/-- What a program is told: the text, or the name of the kind when there is no text. -/
def message (fault : Fault) : String :=
  if fault.text.isEmpty then fault.kind.name else fault.text

/-- An operator between values that it does not join; the type names are those of the values. -/
def unsupportedOperands (operator left right : String) : Fault :=
  ⟨.type, "unsupported operand type(s) for " ++ operator ++ ": '" ++ left ++ "' and '" ++
    right ++ "'"⟩

def cannotConcatenate (sequence other : String) : Fault :=
  ⟨.type, "can only concatenate " ++ sequence ++ " (not \"" ++ other ++ "\") to " ++ sequence⟩

def cannotRepeat (count : String) : Fault :=
  ⟨.type, "can't multiply sequence by non-int of type '" ++ count ++ "'"⟩

def unordered (operator left right : String) : Fault :=
  ⟨.type, "'" ++ operator ++ "' not supported between instances of '" ++ left ++ "' and '" ++
    right ++ "'"⟩

def divisionByZero : Fault := ⟨.zeroDivision, "division by zero"⟩

/-- Division by a zero that is not an integer, or of one that is not. -/
def floatDivisionByZero : Fault := ⟨.zeroDivision, "float division by zero"⟩

def moduloByZero : Fault := ⟨.zeroDivision, "integer modulo by zero"⟩

def floatModulo : Fault := ⟨.zeroDivision, "float modulo"⟩

def zeroToNegativePower : Fault :=
  ⟨.zeroDivision, "0.0 cannot be raised to a negative power"⟩

def resultOutOfRange : Fault := ⟨.overflow, "(34, 'Numerical result out of range')"⟩

def integerTooLarge : Fault := ⟨.overflow, "int too large to convert to float"⟩

def quotientTooLarge : Fault := ⟨.overflow, "integer division result too large for a float"⟩

def notALength : Fault := ⟨.overflow, "cannot fit 'int' into an index-sized integer"⟩

def notANumberToInteger : Fault := ⟨.value, "cannot convert float NaN to integer"⟩

def infinityToInteger : Fault := ⟨.overflow, "cannot convert float infinity to integer"⟩

/-- How many digits an integer may have to be read or written. -/
def digitLimit : Nat := 4300

def tooManyDigits : Fault :=
  ⟨.value, "Exceeds the limit (4300 digits) for integer string conversion; " ++
    "use sys.set_int_max_str_digits() to increase the limit"⟩

def tooManyDigitsRead (count : Nat) : Fault :=
  ⟨.value, "Exceeds the limit (4300 digits) for integer string conversion: value has " ++
    toString count ++ " digits; use sys.set_int_max_str_digits() to increase the limit"⟩

/-- Text that is no integer; the text is given as a literal, of which the start is shown. -/
def invalidInteger (literal : String) : Fault :=
  ⟨.value, "invalid literal for int() with base 10: " ++ (literal.take 200).toString⟩

def unhashable (type : String) : Fault := ⟨.type, "unhashable type: '" ++ type ++ "'"⟩

def indexTooLarge : Fault := ⟨.index, "cannot fit 'int' into an index-sized integer"⟩

def assignmentOutOfRange : Fault := ⟨.index, "list assignment index out of range"⟩

def noAttribute (type name : String) : Fault :=
  ⟨.attribute, "'" ++ type ++ "' object has no attribute '" ++ name ++ "'"⟩

/-- A computed member that numbers of a type have but do not let anyone write. -/
def notWritable (type name : String) : Fault :=
  ⟨.attribute, "attribute '" ++ name ++ "' of '" ++ type ++ "' objects is not writable"⟩

def readOnlyAttribute (type name : String) : Fault :=
  ⟨.attribute, "'" ++ type ++ "' object attribute '" ++ name ++ "' is read-only"⟩

def noLength (type : String) : Fault := ⟨.type, "object of type '" ++ type ++ "' has no len()"⟩

def notIterable (type : String) : Fault := ⟨.type, "'" ++ type ++ "' object is not iterable"⟩

def notSubscriptable (type : String) : Fault :=
  ⟨.type, "'" ++ type ++ "' object is not subscriptable"⟩

def skipOutOfRange : Fault :=
  ⟨.value, "Indices for islice() must be None or an integer: 0 <= x <= sys.maxsize."⟩

def takeOutOfRange : Fault :=
  ⟨.value, "Stop argument for islice() must be None or an integer: 0 <= x <= sys.maxsize."⟩

def alreadyRunning : Fault := ⟨.value, "generator already executing"⟩

def changedDuringIteration : Fault := ⟨.state, "dictionary changed size during iteration"⟩

def circular : Fault := ⟨.value, "Circular reference detected"⟩

def unwritableKey (type : String) : Fault :=
  ⟨.type, "keys must be str, int, float, bool or None, not " ++ type⟩

def embeddedNull : Fault := ⟨.value, "embedded null byte"⟩

def outOfMemory : Fault := ⟨.memory, ""⟩

def repeatedTooOften : Fault := ⟨.overflow, "repeated string is too long"⟩

def noHome : Fault := ⟨.state, "Could not determine home directory."⟩

/-- A part of the evaluator, or of the host, that a value of the type has under the name. -/
def internal (type name : String) : Fault := ⟨.internal, type ++ "." ++ name⟩

/-- A system error with its number, its description and the path it is about, as a literal. -/
def onPath (kind : FaultKind) (number : Nat) (description path : String) : Fault :=
  ⟨kind, "[Errno " ++ toString number ++ "] " ++ description ++ ": " ++ path⟩

end Fault

end ShellLisp
