import ShellLisp.Proofs.Reading.NormalForm
import ShellLisp.Proofs.Reading.Numerals

/-!
# The written form of trees

Whether the lexer reads a leaf back from what is written for it, and what it then makes of a whole
tree. The leaves of lexed text are read back, and a tree with such leaves is lexed as its brackets
and leaves from left to right.
-/

namespace ShellLisp
open Text

/-! ## Brackets and leaves of trees -/

def Literal.lexeme : Literal → Lexeme
  | .null => .null
  | .bool value => .bool value
  | .number value spelling => .number value spelling
  | .word text => .word text
  | .quoted text => .quoted text

namespace Expr

mutual

/-- The brackets and leaves of a tree from left to right. -/
def lexemes : Expr → List Lexeme
  | .call _ body => .bracket '(' :: (lexemesAll body ++ [.bracket ')'])
  | .array _ body => .bracket '[' :: (lexemesAll body ++ [.bracket ']'])
  | .map _ body => .bracket '{' :: (lexemesAll body ++ [.bracket '}'])
  | .value _ literal => [literal.lexeme]
  | .command _ name => [.word name]
  | .variable _ name => [.variable name]

def lexemesAll : List Expr → List Lexeme
  | [] => []
  | e :: rest => e.lexemes ++ lexemesAll rest

end

theorem lexemesAll_append (first second : List Expr) :
    lexemesAll (first ++ second) = lexemesAll first ++ lexemesAll second := by
  induction first with
  | nil => rfl
  | cons e rest ih => simp [lexemesAll, ih]

mutual

def placeless : Expr → Expr
  | .call _ body => .call .nowhere (placelessAll body)
  | .array _ body => .array .nowhere (placelessAll body)
  | .map _ body => .map .nowhere (placelessAll body)
  | .value _ literal => .value .nowhere literal
  | .command _ name => .command .nowhere name
  | .variable _ name => .variable .nowhere name

def placelessAll : List Expr → List Expr
  | [] => []
  | e :: rest => e.placeless :: placelessAll rest

end

mutual

/-- What the written form of a tree shows: no places, and a command as the word that it is. -/
def shown : Expr → Expr
  | .call _ body => .call .nowhere (shownAll body)
  | .array _ body => .array .nowhere (shownAll body)
  | .map _ body => .map .nowhere (shownAll body)
  | .value _ literal => .value .nowhere literal
  | .command _ name => .value .nowhere (.word name)
  | .variable _ name => .variable .nowhere name

def shownAll : List Expr → List Expr
  | [] => []
  | e :: rest => e.shown :: shownAll rest

end

theorem placelessAll_eq_map (body : List Expr) : placelessAll body = body.map placeless := by
  induction body with
  | nil => rfl
  | cons e rest ih => simp [placelessAll, ih]

theorem shownAll_eq_map (body : List Expr) : shownAll body = body.map shown := by
  induction body with
  | nil => rfl
  | cons e rest ih => simp [shownAll, ih]

theorem intercalate_space (parts : List (List Char)) :
    [' '].intercalate parts = (parts.flatMap (' ' :: ·)).tail := by
  induction parts with
  | nil => rfl
  | cons part rest ih =>
      cases rest with
      | nil => simp
      | cons next others => simpa [List.intercalate_cons_cons] using ih

theorem joined_eq_bodyChars {parts : List String} {body : List Expr}
    (written : restChars body = parts.flatMap fun part => ' ' :: part.toList) :
    (" ".intercalate parts).toList = bodyChars body := by
  have tail : bodyChars body = (restChars body).tail := by cases body <;> rfl
  rw [tail, written, String.toList_intercalate]
  exact (intercalate_space _).trans (by rw [List.flatMap_map])

end Expr

def Token.lexemes (tokens : List Token) : List Lexeme := tokens.map (·.lexeme)

/-! ## Leaves that are read back -/

/-- What may stand behind a leaf of a written tree: nothing, a space or a closing bracket. -/
def Ends (rest : List Char) : Prop := ∀ c ∈ rest.head?, c = ' ' ∨ isClosing c = true

theorem ends_nil : Ends [] := by
  rintro c ⟨⟩

/-- Characters that the lexer takes for a leaf wherever the leaf may end behind them. -/
def Spells (chars : List Char) (lexeme : Lexeme) : Prop :=
  ∃ c more, chars = c :: more ∧ ∀ place depth rest, Ends rest →
    Cut.first place depth c (more ++ rest) = .ok ⟨more.length, some lexeme, depth⟩

theorem isWordBreak_of_ends {c : Char} (ends : c = ' ' ∨ isClosing c = true) :
    isWordBreak c = true := by
  simp only [isClosing, Bool.or_eq_true, decide_eq_true_eq] at ends
  rcases ends with rfl | (rfl | rfl) | rfl <;> decide

theorem takeWhile_word {more rest : List Char} (inside : ∀ c ∈ more, isWordBreak c = false)
    (ends : Ends rest) : (more ++ rest).takeWhile (!isWordBreak ·) = more := by
  rw [List.takeWhile_append_of_pos fun c member => by simp [inside c member]]
  cases rest with
  | nil => simp
  | cons c tail =>
      rw [List.takeWhile_cons_of_neg (by simp [isWordBreak_of_ends (ends c rfl)]), List.append_nil]

def startsWord (c : Char) : Bool := !(isWordBreak c || isBlank c || c = '#')

theorem first_of_startsWord {c : Char} (starts : startsWord c = true) (place : Location)
    (depth : Nat) (rest : List Char) :
    Cut.first place depth c rest =
      match Lexeme.ofWord (c :: rest.takeWhile (!isWordBreak ·)) with
      | .ok lexeme => .ok ⟨(rest.takeWhile (!isWordBreak ·)).length, some lexeme, depth⟩
      | .error fault => .error (.fault fault) := by
  simp only [startsWord, Bool.not_eq_true', Bool.or_eq_false_iff, decide_eq_false_iff_not] at starts
  obtain ⟨⟨noBreak, noBlank⟩, noComment⟩ := starts
  simp only [isWordBreak, List.contains_eq_mem, List.mem_cons, List.not_mem_nil, or_false, not_or,
    decide_eq_false_iff_not] at noBreak
  cases word : Lexeme.ofWord (c :: rest.takeWhile (!isWordBreak ·)) <;>
    simp [Cut.first, isOpening, isClosing, noBreak, noBlank, noComment, word]

theorem spells_word {c : Char} {more : List Char} {lexeme : Lexeme} (starts : startsWord c = true)
    (inside : ∀ x ∈ more, isWordBreak x = false) (read : Lexeme.ofWord (c :: more) = .ok lexeme) :
    Spells (c :: more) lexeme := by
  refine ⟨c, more, rfl, fun place depth rest ends => ?_⟩
  rw [first_of_startsWord starts, takeWhile_word inside ends, read]

theorem spells_quoted (text : String) : Spells (quoted text.toList) (.quoted text) := by
  refine ⟨'"', escaped text.toList ++ ['"'], rfl, fun place depth rest _ => ?_⟩
  rw [List.append_assoc, List.singleton_append]
  simp [Cut.first, readQuoted_escaped, isBlank, inSpans, blankSpans, isOpening, isClosing]

theorem spells_operator {text : String} (operator : text ∈ operators) :
    Spells text.toList (.word text) := by
  simp only [operators, List.mem_cons, List.not_mem_nil, or_false] at operator
  rcases operator with rfl | rfl | rfl
  · refine ⟨'|', [], rfl, fun place depth rest ends => ?_⟩
    have plain : rest.head? ≠ some '>' := fun head => by
      rcases ends '>' head with same | same <;> revert same <;> decide
    simp [Cut.first, plain, isBlank, inSpans, blankSpans, isOpening, isClosing]
  · exact ⟨'|', ['>'], rfl, fun place depth rest _ => rfl⟩
  · exact ⟨';', [], rfl, fun place depth rest _ => rfl⟩

/-! ## Leaves of lexed text -/

def Expr.SelfSame : Expr → Prop
  | .value _ literal => literal.same literal = true
  | _ => True

/-- Leaves of such lexemes are read back from their written form, and equal to themselves. -/
def ReadBack (lexeme : Lexeme) : Prop :=
  ∀ place e, lexeme.leaf? place = some e → Spells e.chars lexeme ∧ e.SelfSame

theorem readBack_quoted (text : String) : ReadBack (.quoted text) := by
  rintro place e ⟨⟩
  exact ⟨spells_quoted text, by simp [Expr.SelfSame, Literal.same]⟩

theorem readBack_operator {text : String} (operator : text ∈ operators) :
    ReadBack (.word text) := by
  rintro place e ⟨⟩
  exact ⟨spells_operator operator, by simp [Expr.SelfSame, Literal.same]⟩

theorem chars_of_ofWord {word : List Char} {lexeme : Lexeme}
    (read : Lexeme.ofWord word = .ok lexeme) {place : Location} {e : Expr}
    (leaf : lexeme.leaf? place = some e) : e.chars = word := by
  cases Lexeme.isOfWord_of_ofWord read with
  | named | number | other =>
      cases leaf
      simp [Expr.chars, Literal.spelling]
  | bool value =>
      cases leaf
      cases value <;> rfl
  | null =>
      cases leaf
      rfl

theorem selfSame_of_ofWord {word : List Char} {lexeme : Lexeme}
    (read : Lexeme.ofWord word = .ok lexeme) {place : Location} {e : Expr}
    (leaf : lexeme.leaf? place = some e) : e.SelfSame := by
  cases Lexeme.isOfWord_of_ofWord read with
  | @number _ _ value _ made =>
      cases leaf
      have same := Number.equal_ofNumeral made
      cases value with
      | int n => simp [Expr.SelfSame, Literal.same]
      | float x => exact same
  | named | bool | null | other =>
      cases leaf
      simp [Expr.SelfSame, Literal.same]

theorem startsWord_of_else {c : Char} (noNewline : c ≠ '\n') (noBlank : ¬isBlank c = true)
    (noComment : c ≠ '#') (noOpening : ¬isOpening c = true) (noClosing : ¬isClosing c = true)
    (noQuote : ¬(c = '"' ∨ c = '\'')) (noPipe : c ≠ '|') (noSequence : c ≠ ';') :
    startsWord c = true := by
  have noSpace : c ≠ ' ' ∧ c ≠ '\t' ∧ c ≠ '\r' := by
    refine ⟨?_, ?_, ?_⟩ <;> rintro rfl <;> exact noBlank (by decide)
  simp only [isOpening, isClosing, Bool.or_eq_true, decide_eq_true_eq, not_or]
    at noOpening noClosing
  simp only [startsWord, isWordBreak, List.contains_eq_mem, List.mem_cons, List.not_mem_nil,
    Bool.not_eq_true', Bool.or_eq_false_iff, decide_eq_false_iff_not, or_false]
  grind

/-- The first piece of a text, by the character that it starts with. -/
inductive Cut.IsFirst (depth : Nat) (c : Char) (rest : List Char) : Cut → Prop
  | newline (is : c = '\n') :
      IsFirst depth c rest ⟨0, if depth = 0 then some .newline else none, depth⟩
  | blank (is : isBlank c = true) (noNewline : c ≠ '\n') : IsFirst depth c rest ⟨0, none, depth⟩
  | comment (is : c = '#') :
      IsFirst depth c rest ⟨(rest.takeWhile (· ≠ '\n')).length, none, depth⟩
  | opening (is : isOpening c = true) : IsFirst depth c rest ⟨0, some (.bracket c), depth + 1⟩
  | closing (is : isClosing c = true) : IsFirst depth c rest ⟨0, some (.bracket c), depth - 1⟩
  | quoted {part : QuotedPart} (is : c = '"' ∨ c = '\'') (read : readQuoted c rest = some part) :
      IsFirst depth c rest
        ⟨part.inside.length + 1, some (.quoted (String.ofList part.content)), depth⟩
  | widePipe (is : c = '|') (wide : rest.head? = some '>') :
      IsFirst depth c rest ⟨1, some (.word "|>"), depth⟩
  | pipe (is : c = '|') (narrow : rest.head? ≠ some '>') :
      IsFirst depth c rest ⟨0, some (.word "|"), depth⟩
  | sequence (is : c = ';') : IsFirst depth c rest ⟨0, some (.word ";"), depth⟩
  | word {lexeme : Lexeme} (starts : startsWord c = true)
      (read : Lexeme.ofWord (c :: rest.takeWhile (!isWordBreak ·)) = .ok lexeme) :
      IsFirst depth c rest ⟨(rest.takeWhile (!isWordBreak ·)).length, some lexeme, depth⟩

section
variable {place : Location} {depth : Nat} {c : Char} {rest : List Char} {cut : Cut}

theorem Cut.isFirst_of_first (done : Cut.first place depth c rest = .ok cut) :
    cut.IsFirst depth c rest := by
  unfold Cut.first at done
  split at done
  case isTrue newline => cases done; exact .newline newline
  case isFalse noNewline =>
  split at done
  case isTrue blank => cases done; exact .blank blank noNewline
  case isFalse noBlank =>
  split at done
  case isTrue comment => cases done; exact .comment comment
  case isFalse noComment =>
  split at done
  case isTrue opening => cases done; exact .opening opening
  case isFalse noOpening =>
  split at done
  case isTrue closing => cases done; exact .closing closing
  case isFalse noClosing =>
  split at done
  case isTrue quote =>
    split at done
    · rename_i part read
      cases done
      exact .quoted quote read
    · cases done
  case isFalse noQuote =>
  split at done
  case isTrue pipe =>
    split at done
    · rename_i wide
      cases done
      exact .widePipe pipe wide
    · rename_i narrow
      cases done
      exact .pipe pipe narrow
  case isFalse noPipe =>
  split at done
  case isTrue sequence => cases done; exact .sequence sequence
  case isFalse noSequence =>
  dsimp only at done
  split at done
  · rename_i lexeme read
    cases done
    exact .word (startsWord_of_else noNewline noBlank noComment noOpening noClosing noQuote noPipe
      noSequence) read
  · cases done

/-- No place is looked at, so what is cut off is the same in all places. -/
theorem Cut.IsFirst.first (is : cut.IsFirst depth c rest) (place : Location) :
    Cut.first place depth c rest = .ok cut := by
  cases is with
  | newline is => exact if_pos is
  | blank is noNewline => rw [Cut.first, if_neg noNewline, if_pos is]
  | comment is => subst is; rfl
  | opening is =>
      simp only [isOpening, Bool.or_eq_true, decide_eq_true_eq] at is
      rcases is with (rfl | rfl) | rfl <;> rfl
  | closing is =>
      simp only [isClosing, Bool.or_eq_true, decide_eq_true_eq] at is
      rcases is with (rfl | rfl) | rfl <;> rfl
  | quoted is read =>
      rcases is with rfl | rfl <;>
        simp [Cut.first, isBlank, inSpans, blankSpans, isOpening, isClosing, read]
  | widePipe is wide =>
      subst is
      simp [Cut.first, isBlank, inSpans, blankSpans, isOpening, isClosing, wide]
  | pipe is narrow =>
      subst is
      simp [Cut.first, isBlank, inSpans, blankSpans, isOpening, isClosing, narrow]
  | sequence is => subst is; rfl
  | word starts read => rw [first_of_startsWord starts, read]

end

inductive FirstPiece (depth : Nat) (c : Char) (rest : List Char) : Cut → Prop
  | silent (more : Nat) : FirstPiece depth c rest ⟨more, none, depth⟩
  | newline (outermost : depth = 0) : FirstPiece depth c rest ⟨0, some .newline, depth⟩
  | opening (is : isOpening c = true) : FirstPiece depth c rest ⟨0, some (.bracket c), depth + 1⟩
  | closing (is : isClosing c = true) : FirstPiece depth c rest ⟨0, some (.bracket c), depth - 1⟩
  | quoted (more : Nat) (text : String) : FirstPiece depth c rest ⟨more, some (.quoted text), depth⟩
  | operator (more : Nat) {text : String} (is : text ∈ operators) :
      FirstPiece depth c rest ⟨more, some (.word text), depth⟩
  | word {lexeme : Lexeme} (starts : startsWord c = true)
      (read : Lexeme.ofWord (c :: rest.takeWhile (!isWordBreak ·)) = .ok lexeme) :
      FirstPiece depth c rest ⟨(rest.takeWhile (!isWordBreak ·)).length, some lexeme, depth⟩

theorem firstPiece_of_first {place : Location} {depth : Nat} {c : Char} {rest : List Char}
    {cut : Cut} (done : Cut.first place depth c rest = .ok cut) : FirstPiece depth c rest cut := by
  cases Cut.isFirst_of_first done with
  | newline =>
      by_cases outermost : depth = 0
      · rw [if_pos outermost]
        exact .newline outermost
      · rw [if_neg outermost]
        exact .silent 0
  | blank | comment => exact .silent _
  | opening is => exact .opening is
  | closing is => exact .closing is
  | quoted => exact .quoted _ _
  | widePipe | pipe | sequence => exact .operator _ (by decide)
  | word starts read => exact .word starts read

theorem readBack_of_first {place : Location} {depth : Nat} {c : Char} {rest : List Char} {cut : Cut}
    (done : Cut.first place depth c rest = .ok cut) {lexeme : Lexeme}
    (said : cut.lexeme = some lexeme) : ReadBack lexeme := by
  cases firstPiece_of_first done with
  | silent => cases said
  | newline => cases said; exact fun _ _ leaf => nomatch leaf
  | opening => cases said; exact fun _ _ leaf => nomatch leaf
  | closing => cases said; exact fun _ _ leaf => nomatch leaf
  | quoted more text => cases said; exact readBack_quoted text
  | operator more is => cases said; exact readBack_operator is
  | word starts read =>
      cases said
      intro place e leaf
      refine ⟨?_, selfSame_of_ofWord read leaf⟩
      rw [chars_of_ofWord read leaf]
      refine spells_word starts (fun x member => ?_) read
      simpa using List.all_eq_true.mp List.all_takeWhile x member

theorem readBack_of_pieces {source : List Char} {place : Location} {depth : Nat}
    {found : List Piece} (done : pieces place depth source = .ok found) :
    ∀ token ∈ found.filterMap Piece.token?, ReadBack token.lexeme := by
  refine pieces_induction (motive := fun _ _ _ found =>
      ∀ token ∈ found.filterMap Piece.token?, ReadBack token.lexeme)
    (fun _ _ => nofun) (fun place depth c rest cut others first later token member => ?_) done
  obtain ⟨piece, among, spoken⟩ := List.mem_filterMap.mp member
  rcases List.mem_cons.mp among with rfl | further
  · obtain ⟨lexeme, said, rfl⟩ := Option.map_eq_some_iff.mp spoken
    exact readBack_of_first first said
  · exact later token (List.mem_filterMap.mpr ⟨piece, further, spoken⟩)

theorem mem_of_mem_settleNewlines {before : Option Lexeme} {tokens : List Token} {token : Token}
    (member : token ∈ settleNewlines before tokens) : token ∈ tokens := by
  induction tokens generalizing before with
  | nil => exact member
  | cons first rest ih =>
      unfold settleNewlines at member
      split at member
      · exact List.mem_cons_of_mem _ (ih member)
      · rcases List.mem_cons.mp member with rfl | later
        · exact List.mem_cons_self
        · exact List.mem_cons_of_mem _ (ih later)

theorem pieces_of_lex {source : String} {tokens : List Token}
    (lexed : Token.lex source = .ok tokens) : ∃ found, pieces .start 0 source.toList = .ok found ∧
      tokens = dropLastNewlines (settleNewlines none (found.filterMap Piece.token?)) := by
  rw [Token.lex, Token.lexChars] at lexed
  cases cut : pieces .start 0 source.toList with
  | error failure => simp [cut, Except.map] at lexed
  | ok found =>
      rw [cut] at lexed
      cases lexed
      exact ⟨found, rfl, rfl⟩

/-- The leaves of lexed text are read back from their written form. -/
theorem readBack_of_lex {source : String} {tokens : List Token}
    (lexed : Token.lex source = .ok tokens) : ∀ token ∈ tokens, ReadBack token.lexeme := by
  obtain ⟨found, cut, rfl⟩ := pieces_of_lex lexed
  intro token member
  have settled : token ∈ settleNewlines none (found.filterMap Piece.token?) :=
    List.mem_reverse.mp ((List.dropWhile_sublist _).subset (List.mem_reverse.mp member))
  exact readBack_of_pieces cut token (mem_of_mem_settleNewlines settled)

/-! ## Lexing a written tree -/

/-- A text that is cut, with so many brackets open, into pieces that say some lexemes. -/
def Says (depth : Nat) (text : List Char) (lexemes : List Lexeme) : Prop :=
  ∀ place, ∃ found, pieces place depth text = .ok found ∧
    Token.lexemes (found.filterMap Piece.token?) = lexemes

theorem Says.nil (depth : Nat) : Says depth [] [] :=
  fun place => ⟨[], pieces_nil place depth, rfl⟩

theorem Says.cons (cut : Cut) {depth : Nat} {c : Char} {rest : List Char} {lexemes : List Lexeme}
    (first : ∀ place, Cut.first place depth c rest = .ok cut)
    (later : Says cut.depth (rest.drop cut.more) lexemes) :
    Says depth (c :: rest) (cut.lexeme.toList ++ lexemes) := by
  intro place
  obtain ⟨others, done, said⟩ := later (place.afterText (c :: rest.take cut.more))
  refine ⟨⟨place, c :: rest.take cut.more, cut.lexeme⟩ :: others, ?_, ?_⟩
  · rw [pieces_cons, first place]
    simp only [bind, Except.bind, done]
    rfl
  · obtain ⟨more, lexeme, after⟩ := cut
    cases lexeme with
    | none => exact said
    | some lexeme => exact congrArg (lexeme :: ·) said

theorem Says.space {depth : Nat} {rest : List Char} {lexemes : List Lexeme}
    (later : Says depth rest lexemes) : Says depth (' ' :: rest) lexemes :=
  Says.cons ⟨0, none, depth⟩ (fun _ => rfl) later

theorem Says.opening {depth : Nat} {opener : Char} (opening : isOpening opener = true)
    {rest : List Char} {lexemes : List Lexeme} (later : Says (depth + 1) rest lexemes) :
    Says depth (opener :: rest) (.bracket opener :: lexemes) := by
  refine Says.cons ⟨0, some (.bracket opener), depth + 1⟩ (fun place => ?_) later
  simp only [isOpening, Bool.or_eq_true, decide_eq_true_eq] at opening
  rcases opening with (rfl | rfl) | rfl <;> rfl

theorem Says.closing {depth : Nat} {closer : Char} (closing : isClosing closer = true)
    {rest : List Char} {lexemes : List Lexeme} (later : Says depth rest lexemes) :
    Says (depth + 1) (closer :: rest) (.bracket closer :: lexemes) := by
  refine Says.cons ⟨0, some (.bracket closer), depth⟩ (fun place => ?_) later
  simp only [isClosing, Bool.or_eq_true, decide_eq_true_eq] at closing
  rcases closing with (rfl | rfl) | rfl <;> rfl

theorem Says.leaf {depth : Nat} {chars rest : List Char} {lexeme : Lexeme} {lexemes : List Lexeme}
    (spells : Spells chars lexeme) (ends : Ends rest) (later : Says depth rest lexemes) :
    Says depth (chars ++ rest) (lexeme :: lexemes) := by
  obtain ⟨c, more, rfl, first⟩ := spells
  refine Says.cons ⟨more.length, some lexeme, depth⟩
    (fun place => first place depth rest ends) ?_
  have behind : (more ++ rest).drop more.length = rest := List.drop_left
  exact behind.symm ▸ later

namespace Expr

def LeafSpelled : Expr → Prop
  | .value _ literal => Spells literal.spelling literal.lexeme
  | .command _ name => Spells name.toList (.word name)
  | .variable _ name => Spells ('$' :: name.toList) (.variable name)
  | _ => True

theorem ends_restChars {rest : List Char} (ends : Ends rest) (body : List Expr) :
    Ends (restChars body ++ rest) := by
  cases body with
  | nil => exact ends
  | cons e others =>
      rintro c ⟨⟩
      exact .inl rfl

section
variable {body : List Expr} {depth : Nat} {rest : List Char} {lexemes : List Lexeme}
  (each : ∀ e ∈ body, ∀ {depth : Nat} {rest : List Char} {lexemes : List Lexeme}, Ends rest →
    Says depth rest lexemes → Says depth (e.chars ++ rest) (e.lexemes ++ lexemes))
include each

theorem says_restChars (ends : Ends rest) (later : Says depth rest lexemes) :
    Says depth (restChars body ++ rest) (lexemesAll body ++ lexemes) := by
  induction body with
  | nil => exact later
  | cons e others ih =>
      have behind := ih fun x member => each x (by simp [member])
      rw [restChars, lexemesAll, List.cons_append, List.append_assoc, List.append_assoc]
      exact (each e (by simp) (ends_restChars ends others) behind).space

theorem says_bodyChars (ends : Ends rest) (later : Says depth rest lexemes) :
    Says depth (bodyChars body ++ rest) (lexemesAll body ++ lexemes) := by
  cases body with
  | nil => exact later
  | cons e others =>
      have behind : Says depth (restChars others ++ rest) (lexemesAll others ++ lexemes) :=
        says_restChars (fun x member => each x (by simp [member])) ends later
      rw [bodyChars, lexemesAll, List.append_assoc, List.append_assoc]
      exact each e (by simp) (ends_restChars ends others) behind

theorem says_form {opener closer : Char} (opening : isOpening opener = true)
    (closing : isClosing closer = true) (later : Says depth rest lexemes) :
    Says depth (opener :: bodyChars body ++ [closer] ++ rest)
      (.bracket opener :: (lexemesAll body ++ [.bracket closer]) ++ lexemes) := by
  have closes : Ends (closer :: rest) := by
    rintro c ⟨⟩
    exact .inr closing
  have inside := says_bodyChars each closes (later.closing closing)
  simpa using inside.opening opening

end

/-- A written tree is cut into its brackets and leaves. -/
theorem says_chars {e : Expr} (spelled : e.Everywhere LeafSpelled) {depth : Nat}
    {rest : List Char} {lexemes : List Lexeme} (ends : Ends rest)
    (later : Says depth rest lexemes) : Says depth (e.chars ++ rest) (e.lexemes ++ lexemes) := by
  induction e using Expr.induction generalizing depth rest lexemes with
  | call place body ih =>
      exact says_form (fun e member => ih e member ((everywhere_call.mp spelled).2 e member))
        (by decide) (by decide) later
  | array place body ih =>
      exact says_form (fun e member => ih e member ((everywhere_array.mp spelled).2 e member))
        (by decide) (by decide) later
  | map place body ih =>
      exact says_form (fun e member => ih e member ((everywhere_map.mp spelled).2 e member))
        (by decide) (by decide) later
  | value place literal => exact .leaf (everywhere_value.mp spelled) ends later
  | command place name => exact .leaf (everywhere_command.mp spelled) ends later
  | reference place name => exact .leaf (everywhere_variable.mp spelled) ends later

theorem noNewline_lexemesAll {body : List Expr}
    (each : ∀ e ∈ body, ∀ lexeme ∈ e.lexemes, lexeme.isNewline = false) :
    ∀ lexeme ∈ lexemesAll body, lexeme.isNewline = false := by
  induction body with
  | nil => exact nofun
  | cons e rest ih =>
      intro lexeme member
      rcases List.mem_append.mp member with first | later
      · exact each e (by simp) lexeme first
      · exact ih (fun x inside => each x (by simp [inside])) lexeme later

theorem noNewline_lexemes (e : Expr) : ∀ lexeme ∈ e.lexemes, lexeme.isNewline = false := by
  have form : ∀ (opener closer : Char) (body : List Expr),
      (∀ e ∈ body, ∀ lexeme ∈ e.lexemes, lexeme.isNewline = false) →
      ∀ lexeme ∈ Lexeme.bracket opener :: (lexemesAll body ++ [.bracket closer]),
        lexeme.isNewline = false := by
    intro opener closer body each lexeme member
    simp only [List.mem_cons, List.mem_append, List.not_mem_nil, or_false] at member
    rcases member with rfl | inside | rfl
    · rfl
    · exact noNewline_lexemesAll each lexeme inside
    · rfl
  induction e using Expr.induction with
  | call place body ih => exact form _ _ body ih
  | array place body ih => exact form _ _ body ih
  | map place body ih => exact form _ _ body ih
  | value place literal => cases literal <;> simp [lexemes, Literal.lexeme, Lexeme.isNewline]
  | command place name => simp [lexemes, Lexeme.isNewline]
  | reference place name => simp [lexemes, Lexeme.isNewline]

end Expr

theorem settleNewlines_of_noNewline {tokens : List Token}
    (plain : ∀ token ∈ tokens, token.lexeme.isNewline = false) (before : Option Lexeme) :
    settleNewlines before tokens = tokens := by
  induction tokens generalizing before with
  | nil => rfl
  | cons token rest ih =>
      obtain ⟨first, others⟩ := List.forall_mem_cons.mp plain
      rw [settleNewlines, first, Bool.false_and, if_neg Bool.false_ne_true, ih others]

theorem dropLastNewlines_of_noNewline {tokens : List Token}
    (plain : ∀ token ∈ tokens, token.lexeme.isNewline = false) :
    dropLastNewlines tokens = tokens := by
  have kept : tokens.reverse.dropWhile (·.lexeme.isNewline) = tokens.reverse := by
    cases shape : tokens.reverse with
    | nil => rfl
    | cons last before =>
        have member : last ∈ tokens := List.mem_reverse.mp (shape ▸ List.mem_cons_self)
        rw [List.dropWhile_cons_of_neg (by simp [plain last member])]
  rw [dropLastNewlines, kept, List.reverse_reverse]

theorem lex_of_says {text : List Char} {lexemes : List Lexeme} (spoken : Says 0 text lexemes)
    (plain : ∀ lexeme ∈ lexemes, lexeme.isNewline = false) :
    ∃ tokens, Token.lex (String.ofList text) = .ok tokens ∧ Token.lexemes tokens = lexemes := by
  obtain ⟨found, done, said⟩ := spoken .start
  have plain : ∀ token ∈ found.filterMap Piece.token?, token.lexeme.isNewline = false := by
    intro token member
    refine plain _ ?_
    rw [← said]
    exact List.mem_map_of_mem member
  refine ⟨found.filterMap Piece.token?, ?_, said⟩
  rw [Token.lex, Token.lexChars, String.toList_ofList, done]
  simp only [Except.map, settleNewlines_of_noNewline plain, dropLastNewlines_of_noNewline plain]

theorem lex_text {e : Expr} (spelled : e.Everywhere Expr.LeafSpelled) :
    ∃ tokens, Token.lex e.text = .ok tokens ∧ Token.lexemes tokens = e.lexemes := by
  have spoken := Expr.says_chars spelled ends_nil (.nil 0)
  rw [List.append_nil, List.append_nil] at spoken
  exact lex_of_says spoken e.noNewline_lexemes

end ShellLisp
