import ShellLisp.Text.Blank

/-!
# Shell scripts

Reading the scripts of a plain shell: words with quotes and parameters, redirections, pipelines, and
lists of these. Compound commands are not known. A script is read line by line, so what stands
before a line that cannot be read is still run.
-/

namespace ShellLisp.Process

inductive WordPart
  | text (chars : List Char)
  /-- A parameter; inside quotes its value stays one word. -/
  | parameter (name : String) (quoted : Bool)
  deriving DecidableEq, Repr

inductive Redirection
  | fromFile (path : List WordPart)
  | toFile (channel : Nat) (appends : Bool) (path : List WordPart)
  | toChannel (channel target : Nat)
  deriving DecidableEq, Repr

structure ScriptCommand where
  line : Nat
  words : List (List WordPart)
  redirections : List Redirection
  deriving DecidableEq, Repr

/-- When a pipeline is run, given how the one before it ended. -/
inductive Condition
  | always
  | afterSuccess
  | afterFailure
  deriving DecidableEq, Repr

/-- Commands each of which reads what the one before it wrote. -/
structure Pipeline where
  condition : Condition
  commands : List ScriptCommand
  deriving DecidableEq, Repr

inductive ScriptToken
  | word (parts : List WordPart)
  /-- The number of a channel, right before a redirection. -/
  | channel (number : Nat)
  | operator (text : String)
  | openQuote
  deriving DecidableEq, Repr

/-- Why a script cannot be read any further, and the line in which it cannot. -/
structure ScriptMistake where
  line : Nat
  reason : String
  deriving DecidableEq, Repr

namespace ScriptToken

/-- How a piece that stands where it cannot is reported. -/
def complaint : ScriptToken → String
  | word _ => "word unexpected"
  | channel _ => "redirection unexpected"
  | openQuote => "Unterminated quoted string"
  | operator text =>
      if text = "\n" then "newline unexpected"
      else if text.toList.any (fun c => c == '<' || c == '>') then "redirection unexpected"
      else "\"" ++ text ++ "\" unexpected"

end ScriptToken

namespace Script

def isNameChar (c : Char) : Bool := c.isAlphanum || c == '_'

def readParameter : List Char → Option (String × List Char)
  | '\x7b' :: rest =>
      let name := rest.takeWhile (· ≠ '\x7d')
      if name.length < rest.length then some (String.ofList name, rest.drop (name.length + 1))
      else none
  | c :: rest =>
      if c.isDigit || ['@', '*', '#', '?', '$'].contains c then some (c.toString, rest)
      else if c.isAlpha || c == '_' then
        some (String.ofList (c :: rest.takeWhile isNameChar), rest.dropWhile isNameChar)
      else none
  | [] => none

def addChar (c : Char) : List WordPart → List WordPart
  | .text chars :: rest => .text (c :: chars) :: rest
  | parts => .text [c] :: parts

def finishParts (parts : List WordPart) : List WordPart :=
  (parts.map fun part => match part with
    | .text chars => .text chars.reverse
    | other => other).reverse

/-- The inside of double quotes up to their end, added to parts. -/
def readDouble : Nat → List WordPart → List Char → Option (List WordPart × List Char)
  | 0, _, _ => none
  | _ + 1, _, [] => none
  | _ + 1, parts, '"' :: rest => some (parts, rest)
  | bound + 1, parts, '\\' :: c :: rest =>
      if c = '\n' then readDouble bound parts rest
      else if ['$', '"', '\\', '\x60'].contains c then readDouble bound (addChar c parts) rest
      else readDouble bound (addChar c (addChar '\\' parts)) rest
  | bound + 1, parts, '$' :: rest =>
      match readParameter rest with
      | some (name, after) => readDouble bound (.parameter name true :: parts) after
      | none => readDouble bound (addChar '$' parts) rest
  | bound + 1, parts, c :: rest => readDouble bound (addChar c parts) rest

def endsWord (c : Char) : Bool := [' ', '\t', '\n', ';', '&', '|', '<', '>', '(', ')'].contains c

def readWord : Nat → List WordPart → List Char → Option (List WordPart × List Char)
  | 0, parts, text => some (parts, text)
  | _ + 1, parts, [] => some (parts, [])
  | bound + 1, parts, '\'' :: rest =>
      let inside := rest.takeWhile (· ≠ '\'')
      if inside.length < rest.length then
        readWord bound (inside.foldl (fun found c => addChar c found) (.text [] :: parts))
          (rest.drop (inside.length + 1))
      else none
  | bound + 1, parts, '"' :: rest =>
      match readDouble (rest.length + 1) (.text [] :: parts) rest with
      | some (more, after) => readWord bound more after
      | none => none
  | bound + 1, parts, '\\' :: c :: rest =>
      readWord bound (if c = '\n' then parts else addChar c parts) rest
  | bound + 1, parts, '$' :: rest =>
      match readParameter rest with
      | some (name, after) => readWord bound (.parameter name false :: parts) after
      | none => readWord bound (addChar '$' parts) rest
  | bound + 1, parts, c :: rest =>
      if endsWord c then some (parts, c :: rest) else readWord bound (addChar c parts) rest

def operatorTexts : List String :=
  ["&&", "||", ";;", ">>", ">&", "<&", ";", "&", "|", "<", ">", "(", ")", "\n"]

def readOperator (text : List Char) : Option (String × List Char) :=
  (operatorTexts.find? fun operator => operator.toList.isPrefixOf text).map fun operator =>
    (operator, text.drop operator.length)

def wordToken (parts : List WordPart) (after : List Char) : ScriptToken :=
  match parts, after with
  | [.text [c]], next :: _ =>
      if c.isDigit && (next == '<' || next == '>') then .channel (c.toNat - '0'.toNat)
      else .word parts
  | _, _ => .word parts

def tokens : Nat → Nat → List Char → List (Nat × ScriptToken)
  | 0, _, _ => []
  | _ + 1, _, [] => []
  | bound + 1, line, c :: rest =>
      if c = ' ' ∨ c = '\t' then tokens bound line rest
      else if c = '#' then tokens bound line (rest.dropWhile (· ≠ '\n'))
      else
        match readOperator (c :: rest) with
        | some (operator, after) =>
            let next := if operator = "\n" then line + 1 else line
            (line, .operator operator) :: tokens bound next after
        | none =>
            match readWord (rest.length + 2) [] (c :: rest) with
            | none => [(line, .openQuote)]
            | some (parts, after) =>
                let inside := (c :: rest).take (rest.length + 1 - after.length)
                (line, wordToken (finishParts parts) after) ::
                  tokens bound (line + inside.count '\n') after

/-- A script as it is read so far: the pipelines of the lines that are complete, those of the line
that is not, and the parts of the last pipeline and of its last command, all in reverse. -/
structure Draft where
  finished : List Pipeline
  pipelines : List Pipeline
  condition : Condition
  commands : List ScriptCommand
  line : Nat
  words : List (List WordPart)
  redirections : List Redirection
  /-- The channel that the next redirection is about, if it was named. -/
  channel : Option Nat

namespace Draft

def empty : Draft := ⟨[], [], .always, [], 1, [], [], none⟩

def atStart (draft : Draft) : Bool := draft.words.isEmpty && draft.redirections.isEmpty

/-- Whether a command must follow, because an operator waits for one. -/
def isWaiting (draft : Draft) : Bool := draft.condition ≠ .always || !draft.commands.isEmpty

/-- A draft with its last command finished; none when nothing was read of it. -/
def closeCommand (draft : Draft) : Option Draft :=
  if draft.atStart then none
  else
    some { draft with
      commands := ⟨draft.line, draft.words.reverse, draft.redirections.reverse⟩ :: draft.commands
      words := []
      redirections := [] }

def closePipeline (draft : Draft) (next : Condition) : Option Draft :=
  draft.closeCommand.map fun closed =>
    { closed with
      pipelines := ⟨closed.condition, closed.commands.reverse⟩ :: closed.pipelines
      commands := []
      condition := next }

def closeLine (draft : Draft) : Draft :=
  { draft with finished := draft.pipelines ++ draft.finished, pipelines := [] }

/-- A draft at the end of a line; none when something must follow on the line. -/
def endLine (draft : Draft) : Option Draft :=
  if draft.atStart then if draft.isWaiting then none else some draft.closeLine
  else (draft.closePipeline .always).map closeLine

def extend (draft : Draft) (line : Nat) (change : Draft → Draft) : Draft :=
  change { draft with line := if draft.atStart then line else draft.line }

def redirect (draft : Draft) (line : Nat) (redirection : Redirection) : Draft :=
  draft.extend line fun started =>
    { started with redirections := redirection :: started.redirections, channel := none }

/-- The pipelines of the complete lines of a draft, with a mistake after them. -/
def stop (draft : Draft) (line : Nat) (reason : String) : List Pipeline × Option ScriptMistake :=
  (draft.finished.reverse, some ⟨line, reason⟩)

end Draft

def channelOf : List WordPart → Nat
  | [.text ['2']] => 2
  | _ => 1

def redirection? (operator : String) (channel : Option Nat) (target : List WordPart) :
    Option Redirection :=
  match operator with
  | ">" => some (.toFile (channel.getD 1) false target)
  | ">>" => some (.toFile (channel.getD 1) true target)
  | ">&" => some (.toChannel (channel.getD 1) (channelOf target))
  | "<" => some (.fromFile target)
  | _ => none

/-- The draft after an operator that joins commands; none where it cannot stand. -/
def afterOperator (draft : Draft) : String → Option Draft
  | "|" => draft.closeCommand
  | "&&" => draft.closePipeline .afterSuccess
  | "||" => draft.closePipeline .afterFailure
  | ";" => draft.closePipeline .always
  | "&" => draft.closePipeline .always
  | "\n" => if draft.atStart && draft.isWaiting then some draft else draft.endLine
  | _ => none

/-- The pipelines of the pieces of a script, up to the line of the first mistake. -/
def parseTokens : Draft → List (Nat × ScriptToken) → List Pipeline × Option ScriptMistake
  | draft, [] =>
      match draft.endLine with
      | some done => (done.finished.reverse, none)
      | none => draft.stop draft.line "end of file unexpected"
  | draft, (line, .operator operator) :: (next, .word target) :: rest =>
      match redirection? operator draft.channel target with
      | some redirection => parseTokens (draft.redirect line redirection) rest
      | none =>
          match afterOperator draft operator with
          | some after =>
              parseTokens (after.extend next fun started =>
                { started with words := target :: started.words }) rest
          | none => draft.stop line (ScriptToken.operator operator).complaint
  | draft, (line, .operator operator) :: rest =>
      match redirection? operator none [], rest with
      | some _, [] => draft.stop line "end of file unexpected"
      | some _, (_, token) :: _ => draft.stop line token.complaint
      | none, _ =>
          match afterOperator draft operator with
          | some after => parseTokens after rest
          | none => draft.stop line (ScriptToken.operator operator).complaint
  | draft, (_, .channel number) :: rest => parseTokens { draft with channel := some number } rest
  | draft, (line, .openQuote) :: _ => draft.stop line ScriptToken.openQuote.complaint
  | draft, (line, .word parts) :: rest =>
      parseTokens (draft.extend line fun started =>
        { started with words := parts :: started.words }) rest

/-- The pipelines of a script, up to the line of the first mistake, and that mistake. -/
def parse (script : String) : List Pipeline × Option ScriptMistake :=
  parseTokens .empty (tokens (script.length + 1) 1 script.toList)

end Script

end ShellLisp.Process
