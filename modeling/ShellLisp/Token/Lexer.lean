import ShellLisp.Problem
import ShellLisp.Text.Quoted
import ShellLisp.Token

/-!
# Lexing

A source text is cut into pieces from left to right: each piece is the spelling of a token, or white
space or a comment that says nothing. A newline is a token only outside all brackets. `Token.lex`
then drops the newlines that end no statement: at the start or the end of the text, after another
newline, and after an operator. The main statement is that the pieces of a text make up the text.
-/

namespace ShellLisp
open Text

def isWordBreak (c : Char) : Bool :=
  [' ', '\t', '\r', '\n', '"', '\'', '|', ';', '(', '[', '{', ')', ']', '}'].contains c

def isOpening (c : Char) : Bool := c = '(' || c = '[' || c = '{'

def isClosing (c : Char) : Bool := c = ')' || c = ']' || c = '}'

def Lexeme.ofWord (word : List Char) : Except Fault Lexeme :=
  match word with
  | '$' :: first :: rest => .ok (.variable (String.ofList (first :: rest)))
  | _ =>
      match Decimal.Numeral.read? word with
      | some numeral => (Number.ofNumeral numeral).map (.number · (String.ofList word))
      | none =>
          let text := String.ofList word
          .ok (if text = "true" then .bool true
            else if text = "false" then .bool false
            else if text = "null" then .null
            else .word text)

/-- What a word says when it can be read. -/
inductive Lexeme.IsOfWord : List Char → Lexeme → Prop
  | named (first : Char) (rest : List Char) :
      IsOfWord ('$' :: first :: rest) (.variable (String.ofList (first :: rest)))
  | number {word : List Char} {numeral : Decimal.Numeral} {value : Number}
      (read : Decimal.Numeral.read? word = some numeral)
      (made : Number.ofNumeral numeral = .ok value) :
      IsOfWord word (.number value (String.ofList word))
  | bool (value : Bool) : IsOfWord (if value then "true" else "false").toList (.bool value)
  | null : IsOfWord "null".toList .null
  | other (word : List Char) : IsOfWord word (.word (String.ofList word))

theorem Lexeme.isOfWord_of_ofWord {word : List Char} {lexeme : Lexeme}
    (read : ofWord word = .ok lexeme) : IsOfWord word lexeme := by
  unfold ofWord at read
  split at read
  · cases read
    exact .named _ _
  · split at read
    · rename_i numeral spelled
      cases made : Number.ofNumeral numeral with
      | error fault => simp [made, Except.map] at read
      | ok value =>
          rw [made] at read
          cases read
          exact .number spelled made
    · have chars {text : String} (same : String.ofList word = text) : word = text.toList := by
        simpa using congrArg String.toList same
      cases read
      split
      · rename_i same
        exact chars same ▸ .bool true
      · split
        · rename_i same
          exact chars same ▸ .bool false
        · split
          · rename_i same
            exact chars same ▸ .null
          · exact .other word

theorem Lexeme.ofWord_fails {word : List Char} {fault : Fault}
    (failed : ofWord word = .error fault) :
    ∃ numeral, Decimal.Numeral.read? word = some numeral ∧ numeral.isInteger = true ∧
      Fault.digitLimit < numeral.whole.length ∧
      fault = .tooManyDigitsRead numeral.whole.length := by
  unfold ofWord at failed
  split at failed
  · cases failed
  · split at failed
    · rename_i numeral read
      refine ⟨numeral, read, ?_⟩
      cases made : Number.ofNumeral numeral with
      | ok value => rw [made] at failed; cases failed
      | error found =>
          rw [made] at failed
          cases failed
          exact Number.ofNumeral_fails made
    · cases failed

/-- The first piece of a text: how many characters it has after its first, what it says, and how
many brackets are open after it. -/
structure Cut where
  more : Nat
  lexeme : Option Lexeme
  depth : Nat

/-- Cuts the first piece off a text that starts with `c`. -/
def Cut.first (place : Location) (depth : Nat) (c : Char) (rest : List Char) : Except Failure Cut :=
  if c = '\n' then .ok ⟨0, if depth = 0 then some .newline else none, depth⟩
  else if isBlank c then .ok ⟨0, none, depth⟩
  else if c = '#' then .ok ⟨(rest.takeWhile (· ≠ '\n')).length, none, depth⟩
  else if isOpening c then .ok ⟨0, some (.bracket c), depth + 1⟩
  else if isClosing c then .ok ⟨0, some (.bracket c), depth - 1⟩
  else if c = '"' ∨ c = '\'' then
    match readQuoted c rest with
    | some part => .ok ⟨part.inside.length + 1, some (.quoted (String.ofList part.content)), depth⟩
    | none => .error (.at place .unterminatedText)
  else if c = '|' then
    if rest.head? = some '>' then .ok ⟨1, some (.word "|>"), depth⟩
    else .ok ⟨0, some (.word "|"), depth⟩
  else if c = ';' then .ok ⟨0, some (.word ";"), depth⟩
  else
    let more := rest.takeWhile (!isWordBreak ·)
    match Lexeme.ofWord (c :: more) with
    | .ok lexeme => .ok ⟨more.length, some lexeme, depth⟩
    | .error fault => .error (.fault fault)

/-- A piece of a source text: where it starts, its characters, and what it says. -/
structure Piece where
  place : Location
  spelling : List Char
  lexeme : Option Lexeme

/-- Cuts a text into pieces, given the place of its first character and how many brackets are
open. -/
def pieces (place : Location) (depth : Nat) : List Char → Except Failure (List Piece)
  | [] => .ok []
  | c :: rest => do
      let cut ← Cut.first place depth c rest
      let spelling := c :: rest.take cut.more
      let others ← pieces (place.afterText spelling) cut.depth (rest.drop cut.more)
      return ⟨place, spelling, cut.lexeme⟩ :: others
termination_by text => text.length
decreasing_by simp only [List.length_cons, List.length_drop]; omega

def Piece.token? (piece : Piece) : Option Token := piece.lexeme.map (⟨·, piece.place⟩)

/-- Whether a newline says nothing because of what comes before it. -/
def absorbsNewline : Option Lexeme → Bool
  | none => true
  | some before => before.isNewline || before.isOperator

/-- Drops the newlines that end no statement, given what comes before. -/
def settleNewlines : Option Lexeme → List Token → List Token
  | _, [] => []
  | before, token :: rest =>
      if token.lexeme.isNewline && absorbsNewline before then settleNewlines before rest
      else token :: settleNewlines (some token.lexeme) rest

def dropLastNewlines (tokens : List Token) : List Token :=
  (tokens.reverse.dropWhile (·.lexeme.isNewline)).reverse

def Token.lexChars (source : List Char) : Except Failure (List Token) :=
  (pieces .start 0 source).map fun found =>
    dropLastNewlines (settleNewlines none (found.filterMap Piece.token?))

def Token.lex (source : String) : Except Failure (List Token) := Token.lexChars source.toList

theorem pieces_nil (place : Location) (depth : Nat) : pieces place depth [] = .ok [] := by
  rw [pieces]

theorem pieces_cons (place : Location) (depth : Nat) (c : Char) (rest : List Char) :
    pieces place depth (c :: rest) = (do
      let cut ← Cut.first place depth c rest
      let spelling := c :: rest.take cut.more
      let others ← pieces (place.afterText spelling) cut.depth (rest.drop cut.more)
      return ⟨place, spelling, cut.lexeme⟩ :: others) := by
  rw [pieces]

/-- Induction along the pieces of a text that can be cut. -/
theorem pieces_induction {motive : Location → Nat → List Char → List Piece → Prop}
    (nil : ∀ place depth, motive place depth [] [])
    (cons : ∀ place depth c rest cut others, Cut.first place depth c rest = .ok cut →
      motive (place.afterText (c :: rest.take cut.more)) cut.depth (rest.drop cut.more) others →
      motive place depth (c :: rest) (⟨place, c :: rest.take cut.more, cut.lexeme⟩ :: others))
    {place : Location} {depth : Nat} {source : List Char} {found : List Piece}
    (done : pieces place depth source = .ok found) : motive place depth source found := by
  induction place, depth, source using pieces.induct generalizing found with
  | case1 place depth =>
      rw [pieces_nil] at done
      cases done
      exact nil place depth
  | case2 place depth c rest ih =>
      rw [pieces_cons] at done
      obtain ⟨cut, first, later⟩ := exists_of_bind_ok done
      obtain ⟨others, behind, made⟩ := exists_of_bind_ok later
      cases made
      exact cons place depth c rest cut others first (ih cut behind)

theorem pieces_spelling {source : List Char} {place : Location} {depth : Nat}
    {found : List Piece} (cut : pieces place depth source = .ok found) :
    found.flatMap (·.spelling) = source := by
  refine pieces_induction (motive := fun _ _ source found => found.flatMap (·.spelling) = source)
    (fun _ _ => rfl) (fun place depth c rest first others _ whole => ?_) cut
  simp [whole]

end ShellLisp
