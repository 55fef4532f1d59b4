import ShellLisp.Text.Digit
import ShellLisp.Text.Literal
import ShellLisp.Text.Search

/-!
# Options of the command line

What the arguments of the command line ask for. Options can be abbreviated as long as they stay
distinct, and values can be attached to them. The first argument that is no option is the file; what
is not known and what is left is kept for the program. The main statement is that of arguments none
of which is an option the first is the file and the others are kept for the program, in their order.
-/

namespace ShellLisp

inductive CommandOption
  | help
  | code
  | tree
  | logLevel
  | version
  deriving DecidableEq, Repr

namespace CommandOption

def spellings : List (String × CommandOption) := [
  ("-h", help), ("--help", help), ("-c", code), ("--ast", tree), ("--log-level", logLevel),
  ("--version", version)]

def name (option : CommandOption) : String :=
  "/".intercalate ((spellings.filter fun entry => entry.2 = option).map Prod.fst)

def takesValue : CommandOption → Bool
  | code | logLevel => true
  | help | tree | version => false

end CommandOption

inductive ArgumentMistake
  | ambiguous (argument : String) (candidates : List String)
  | valueMissing (option : CommandOption)
  | valueIgnored (option : CommandOption) (value : String)
  deriving DecidableEq, Repr

def ArgumentMistake.message : ArgumentMistake → String
  | ambiguous argument candidates =>
      "ambiguous option: " ++ argument ++ " could match " ++ ", ".intercalate candidates
  | valueMissing option => "argument " ++ option.name ++ ": expected one argument"
  | valueIgnored option value =>
      "argument " ++ option.name ++ ": ignored explicit argument " ++ Text.literal value

inductive OptionForm
  /-- A single dash and a letter. -/
  | short
  | long
  deriving DecidableEq, Repr

structure AttachedValue where
  text : List Char
  afterSign : Bool
  deriving DecidableEq, Repr

inductive ArgumentKind
  | plain
  /-- The mark behind which no argument is an option. -/
  | separator
  | option (option : CommandOption) (form : OptionForm) (attached : Option AttachedValue)
  | unknownOption
  deriving DecidableEq, Repr

namespace ArgumentKind

def isOption : ArgumentKind → Bool
  | plain | separator => false
  | option _ _ _ | unknownOption => true

end ArgumentKind

structure RunOptions where
  file : Option String
  code : Option String
  tree : Bool
  logLevel : Option String
  rest : List String
  deriving DecidableEq, Repr

def RunOptions.empty : RunOptions := ⟨none, none, false, none, []⟩

inductive Invocation
  | help
  | version
  | run (options : RunOptions)
  deriving DecidableEq, Repr

namespace CommandLine

def isDigits (text : List Char) : Bool := !text.isEmpty && text.all Text.isDecimalDigit

def isNegativeNumber (text : List Char) : Bool :=
  let unsigned := text.tail
  let closed := if unsigned.getLast? == some '\n' then unsigned.dropLast else unsigned
  let whole := closed.takeWhile Text.isDecimalDigit
  isDigits closed ||
    match closed.drop whole.length with
    | '.' :: fraction => isDigits fraction
    | _ => false

def cutAtSign (text : List Char) : List Char × Option AttachedValue :=
  let head := text.takeWhile (· ≠ '=')
  match text.drop head.length with
  | [] => (text, none)
  | _ :: value => (head, some ⟨value, true⟩)

/-- The spellings that an argument could stand for, with what is attached to each. -/
def candidates (text : List Char) : List (String × ArgumentKind) :=
  match text with
  | '-' :: '-' :: _ =>
      let (head, attached) := cutAtSign text
      let matching := CommandOption.spellings.filter fun entry => head.isPrefixOf entry.1.toList
      matching.map fun (spelling, option) => (spelling, .option option .long attached)
  | _ =>
      let (head, value) := (text.take 2, text.drop 2)
      let matching := CommandOption.spellings.filter fun entry => entry.1.toList == head
      matching.map fun (spelling, option) => (spelling, .option option .short (some ⟨value, false⟩))

def formOf (spelling : List Char) : OptionForm :=
  if ['-', '-'].isPrefixOf spelling then .long else .short

def exactOption? (argument : String) : Option ArgumentKind :=
  let (head, attached) := cutAtSign argument.toList
  let whole := (CommandOption.spellings.lookup argument).map fun option =>
    ArgumentKind.option option (formOf argument.toList) none
  whole.or ((CommandOption.spellings.lookup (String.ofList head)).map fun option =>
    ArgumentKind.option option (formOf head) attached)

/-- What an argument is that is not behind the separator. -/
def kindOf (argument : String) : Except ArgumentMistake ArgumentKind :=
  if argument = "--" then .ok .separator
  else
    match argument.toList with
    | '-' :: next :: rest =>
        match exactOption? argument with
        | some kind => .ok kind
        | none =>
            match candidates ('-' :: next :: rest) with
            | [] =>
                let isPlain := isNegativeNumber ('-' :: next :: rest) || (next :: rest).contains ' '
                if isPlain then .ok .plain else .ok .unknownOption
            | [only] => .ok only.2
            | several => .error (.ambiguous argument (several.map Prod.fst))
    | _ => .ok .plain

def classify : List String → Except ArgumentMistake (List (String × ArgumentKind))
  | [] => .ok []
  | argument :: rest => do
      match ← kindOf argument with
      | .separator => return (argument, .separator) :: rest.map fun text => (text, .plain)
      | kind => return (argument, kind) :: (← classify rest)

/-- Checks the letters that are attached to the option for help, each of which is an option of its
own as far as they are known. Says whether the last one still needs a value. -/
def checkLetters (afterSign : Bool) : List Char → Except ArgumentMistake Bool
  | [] => .error (.valueIgnored .help "")
  | c :: rest =>
      if afterSign || c == '-' then .error (.valueIgnored .help (String.ofList (c :: rest)))
      else if c = 'h' then
        match rest with
        | [] => .ok false
        | '=' :: value => .error (.valueIgnored .help (String.ofList value))
        | _ => checkLetters false rest
      else .ok (c == 'c' && rest.isEmpty)

def setValue (options : RunOptions) (option : CommandOption) (value : String) : RunOptions :=
  match option with
  | .code => { options with code := some value }
  | .logLevel => { options with logLevel := some value }
  | _ => options

def keep (options : RunOptions) (argument : String) : RunOptions :=
  { options with rest := options.rest ++ [argument] }

/-- Reads the arguments behind the last option. The file is the first of them, unless it was read
before; the separator next to the file is dropped. -/
def readLast (options : RunOptions) (hasFile : Bool) (arguments : List (String × ArgumentKind)) :
    RunOptions :=
  let kept (left : List (String × ArgumentKind)) : List String := options.rest ++ left.map Prod.fst
  if hasFile then { options with rest := kept arguments }
  else
    match arguments with
    | (_, .separator) :: (file, _) :: rest => { options with file := some file, rest := kept rest }
    | [(_, .separator)] => options
    | (file, _) :: (_, .separator) :: rest => { options with file := some file, rest := kept rest }
    | (file, _) :: rest => { options with file := some file, rest := kept rest }
    | [] => options

/-- The value that an option needs, at the start of the arguments that follow it. -/
def needed (option : CommandOption) (arguments : List (String × ArgumentKind)) :
    Except ArgumentMistake String :=
  match arguments with
  | (value, .plain) :: _ => .ok value
  | _ => .error (.valueMissing option)

/-- Reads arguments of known kinds; `hasFile` says whether the file was read. -/
def readKinds (options : RunOptions) (hasFile : Bool) :
    List (String × ArgumentKind) → Except ArgumentMistake Invocation
  | [] => .ok (.run (readLast options hasFile []))
  | (argument, kind) :: rest =>
      if !(kind.isOption || rest.any fun later => later.2.isOption) then
        .ok (.run (readLast options hasFile ((argument, kind) :: rest)))
      else
        match kind with
        | .plain | .separator =>
            if hasFile then readKinds (keep options argument) true rest
            else readKinds { options with file := some argument } true rest
        | .unknownOption => readKinds (keep options argument) hasFile rest
        | .option .help .short (some attached) => do
            if ← checkLetters attached.afterSign attached.text then let _ ← needed .code rest
            return .help
        | .option option _ (some attached) =>
            if option.takesValue then
              readKinds (setValue options option (String.ofList attached.text)) hasFile rest
            else .error (.valueIgnored option (String.ofList attached.text))
        | .option .help _ none => .ok .help
        | .option .version _ none => .ok .version
        | .option .tree _ none => readKinds { options with tree := true } hasFile rest
        | .option option _ none => do
            let value ← needed option rest
            readKinds (setValue options option value) hasFile rest.tail
termination_by arguments => arguments.length
decreasing_by all_goals simp only [List.length_cons, List.length_tail]; omega

def read (arguments : List String) : Except ArgumentMistake Invocation := do
  readKinds .empty false (← classify arguments)

theorem classify_of_plain {arguments : List String}
    (plain : ∀ argument ∈ arguments, kindOf argument = .ok .plain) :
    classify arguments = .ok (arguments.map fun argument => (argument, .plain)) := by
  induction arguments with
  | nil => rfl
  | cons first rest ih =>
      have tail := ih fun argument member => plain argument (List.mem_cons_of_mem _ member)
      simp [classify, plain first List.mem_cons_self, tail, bind, Except.bind, pure, Except.pure]

theorem read_of_plain {file : String} {rest : List String}
    (plain : ∀ argument ∈ file :: rest, kindOf argument = .ok .plain) :
    read (file :: rest) = .ok (.run { RunOptions.empty with file := some file, rest }) := by
  simp only [read, classify_of_plain plain, bind, Except.bind, List.map_cons]
  unfold readKinds
  have free : (rest.map fun argument => (argument, ArgumentKind.plain)).any
      (fun later => later.2.isOption) = false := by
    simp [ArgumentKind.isOption]
  rw [free]
  cases rest <;> simp [ArgumentKind.isOption, readLast, RunOptions.empty, Function.comp_def]

end CommandLine

end ShellLisp
