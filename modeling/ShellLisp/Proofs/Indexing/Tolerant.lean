import ShellLisp.Index
import ShellLisp.Proofs.Reading.Scans

/-!
# Lexing what is before an open string

A text can be lexed unless it has a string that is never closed, or a number of too many digits. The
first is told with the place of the opening quote, from which the offset of the quote is computed
again; the text up to there has the tokens that the lexer had found when it came to the quote.
-/

namespace ShellLisp
open Text

/-! ## Offsets -/

theorem lastLine_cases (text : List Char) :
    '\n' ∉ text ∨ ∃ lines last, text = lines ++ '\n' :: last ∧ '\n' ∉ last := by
  induction text with
  | nil => exact .inl List.not_mem_nil
  | cons c rest ih =>
      rcases ih with oneLine | ⟨lines, last, rfl, oneLine⟩
      · by_cases newline : c = '\n'
        · exact .inr ⟨[], rest, by rw [newline]; rfl, oneLine⟩
        · exact .inl (by simp [Ne.symm newline, oneLine])
      · exact .inr ⟨c :: lines, last, rfl, oneLine⟩

theorem takeWhile_reverse_line {last : List Char} (oneLine : '\n' ∉ last) (lines : List Char) :
    (last.reverse ++ lines).takeWhile (· ≠ '\n') = last.reverse ++ lines.takeWhile (· ≠ '\n') :=
  List.takeWhile_append_of_pos fun _ member =>
    decide_eq_true fun newline => oneLine (newline ▸ List.mem_reverse.mp member)

theorem placeBehind_oneLine {text : List Char} (oneLine : '\n' ∉ text) :
    placeBehind text = ⟨1, text.length + 1⟩ := by
  have run := takeWhile_reverse_line oneLine []
  rw [List.append_nil] at run
  rw [placeBehind, List.count_eq_zero.mpr oneLine, run]
  simp

theorem placeBehind_lines {last : List Char} (oneLine : '\n' ∉ last) (lines : List Char) :
    placeBehind (lines ++ '\n' :: last) = ⟨lines.count '\n' + 2, last.length + 1⟩ := by
  have run := takeWhile_reverse_line oneLine ('\n' :: lines.reverse)
  have ended : ('\n' :: lines.reverse).takeWhile (· ≠ '\n') = [] :=
    List.takeWhile_cons_of_neg (by simp)
  rw [placeBehind, List.count_append, List.count_cons_self, List.count_eq_zero.mpr oneLine,
    List.reverse_append, List.reverse_cons, List.append_assoc, List.singleton_append, run, ended]
  simp

theorem lineOffset?_lines (lines rest : List Char) :
    lineOffset? (lines.count '\n' + 1) (lines ++ '\n' :: rest) = some (lines.length + 1) := by
  induction lines with
  | nil => simp [lineOffset?]
  | cons c lines ih =>
      rw [List.cons_append, lineOffset?]
      by_cases newline : c = '\n'
      · rw [newline, if_pos rfl, List.count_cons_self, ih]
        rfl
      · rw [if_neg newline, List.count_cons_of_ne newline, ih]
        rfl

theorem offset_placeBehind (before rest : List Char) :
    (placeBehind before).offset (before ++ rest) = before.length := by
  rcases lastLine_cases before with oneLine | ⟨lines, last, rfl, oneLine⟩
  · rw [placeBehind_oneLine oneLine]
    simp [Location.offset, Location.zeroBased, lineOffset?]
  · rw [placeBehind_lines oneLine, List.append_assoc, List.cons_append]
    simp only [Location.offset, Location.zeroBased]
    rw [if_neg (Nat.succ_ne_zero _), Nat.add_sub_assoc (by omega), lineOffset?_lines]
    simp only [List.length_append, List.length_cons]
    omega

/-! ## Where lexing stops -/

def TooLong (word : List Char) : Prop :=
  ∃ numeral, Decimal.Numeral.read? word = some numeral ∧ numeral.isInteger = true ∧
    Fault.digitLimit < numeral.whole.length

/-- The lexer has cut pieces off a text, and comes to a quote whose string is never closed. -/
structure Unclosed (source : List Char) (kept : List Piece) (before : List Char) (quote : Char)
    (rest : List Char) : Prop where
  cuts : ∃ depth, Scan.Cuts ⟨.start, 0, source⟩ kept ⟨placeBehind before, depth, quote :: rest⟩
  whole : source = before ++ quote :: rest
  isQuote : quote = '"' ∨ quote = '\''
  neverClosed : ∀ inside content behind, Quotes quote inside content →
    rest ≠ inside ++ quote :: behind

theorem Cut.first_error {place : Location} {depth : Nat} {c : Char} {rest : List Char}
    {failure : Failure} (failed : Cut.first place depth c rest = .error failure) :
    ((c = '"' ∨ c = '\'') ∧ readQuoted c rest = none ∧ failure = .at place .unterminatedText) ∨
      ∃ fault, Lexeme.ofWord (c :: rest.takeWhile (!isWordBreak ·)) = .error fault ∧
        failure = .fault fault := by
  unfold Cut.first at failed
  dsimp only at failed
  repeat' split at failed
  all_goals try cases failed
  · rename_i quote _ nothing
    exact .inl ⟨quote, nothing, rfl⟩
  · rename_i fault read
    exact .inr ⟨fault, read, rfl⟩

theorem tooLong_of_ofWord {word : List Char} {fault : Fault}
    (failed : Lexeme.ofWord word = .error fault) : TooLong word :=
  have ⟨numeral, read, integer, long, _⟩ := Lexeme.ofWord_fails failed
  ⟨numeral, read, integer, long⟩

theorem neverClosed_of_readQuoted {quote : Char} {rest : List Char}
    (nothing : readQuoted quote rest = none) {inside content : List Char}
    (decoded : Quotes quote inside content) (behind : List Char) :
    rest ≠ inside ++ quote :: behind := by
  rintro rfl
  rw [readQuoted_of_quotes decoded] at nothing
  cases nothing

/-- The lexer goes through a whole text, or stops at a string that is never closed or at a number
word that is too long. -/
theorem lex_outcome (source : String) :
    (∃ tokens, Token.lex source = .ok tokens) ∨
    (∃ kept before quote rest, Unclosed source.toList kept before quote rest ∧
      Token.lex source = .error (.at (placeBehind before) .unterminatedText)) ∨
    ∃ kept place depth word behind fault,
      Scan.Cuts ⟨.start, 0, source.toList⟩ kept ⟨place, depth, word ++ behind⟩ ∧
        (∀ c ∈ behind.head?, isWordBreak c = true) ∧ TooLong word ∧
        Token.lex source = .error (.fault fault) := by
  obtain ⟨kept, ⟨place, depth, left⟩, cuts, stopped⟩ := Scan.exists_cuts ⟨.start, 0, source.toList⟩
  have whole := cuts.pieces_eq
  rcases stopped with rfl | ⟨c, rest, failure, rfl, failed⟩
  · rw [pieces_nil] at whole
    exact .inl ⟨_, by rw [Token.lex, Token.lexChars, whole]; rfl⟩
  · dsimp only at whole failed
    have lexFails : Token.lex source = .error failure := by
      rw [Token.lex, Token.lexChars, whole, pieces_cons, failed]
      rfl
    rcases Cut.first_error failed with ⟨quote, nothing, rfl⟩ | ⟨fault, read, rfl⟩
    · have behind : place = placeBehind (kept.flatMap (·.spelling)) := by
        rw [← List.nil_append (kept.flatMap _), placeBehind_append]
        exact cuts.place_eq
      rw [behind] at cuts lexFails
      exact .inr (.inl ⟨kept, _, c, rest, ⟨⟨depth, cuts⟩, cuts.left_eq, quote,
        fun _ _ behind decoded => neverClosed_of_readQuoted nothing decoded behind⟩, lexFails⟩)
    · have word : c :: rest = c :: rest.takeWhile (!isWordBreak ·) ++ rest.dropWhile (!isWordBreak ·) := by
        rw [List.cons_append, List.takeWhile_append_dropWhile]
      rw [word] at cuts
      refine .inr (.inr ⟨kept, place, depth, _, _, fault, cuts, fun x first => ?_,
        tooLong_of_ofWord read, lexFails⟩)
      have stopped := List.head?_dropWhile_not (!isWordBreak ·) rest
      rw [show (rest.dropWhile (!isWordBreak ·)).head? = some x from first] at stopped
      simpa using stopped

theorem Unclosed.lexChars_before {source before rest : List Char} {kept : List Piece} {quote : Char}
    (unclosed : Unclosed source kept before quote rest) :
    Token.lexChars before =
      .ok (dropLastNewlines (settleNewlines none (kept.filterMap Piece.token?))) := by
  obtain ⟨⟨depth, cuts⟩, whole, -, -⟩ := unclosed
  have spelled : kept.flatMap (·.spelling) = before :=
    List.append_cancel_right (cuts.left_eq.symm.trans whole)
  have atEnd : SameLook (quote :: rest) [] := by rintro _ ⟨⟩
  have alone := (cuts.of_sameLook atEnd).pieces_eq
  rw [List.append_nil, spelled, pieces_nil] at alone
  rw [Token.lexChars, alone]
  simp [Except.map]

/-- Lexing that tolerates an open string keeps what is before it, and fails on nothing else than
number words that are too long. -/
theorem lexTolerant_outcome (source : String) :
    match Token.lex source with
    | .ok tokens => Token.lexTolerant source.toList = .ok tokens
    | .error (.problem problem) => ∃ kept before quote rest,
        Unclosed source.toList kept before quote rest ∧
          problem = ⟨.unterminatedText, some (placeBehind before)⟩ ∧
          Token.lexTolerant source.toList =
            .ok (dropLastNewlines (settleNewlines none (kept.filterMap Piece.token?)))
    | .error failure => Token.lexTolerant source.toList = .error failure ∧
        ∃ kept place depth word behind,
          Scan.Cuts ⟨.start, 0, source.toList⟩ kept ⟨place, depth, word ++ behind⟩ ∧
            (∀ c ∈ behind.head?, isWordBreak c = true) ∧ TooLong word := by
  have chars : Token.lexChars source.toList = Token.lex source := rfl
  rw [Token.lexTolerant, chars]
  rcases lex_outcome source with ⟨tokens, lexed⟩ | ⟨kept, before, quote, rest, unclosed, failed⟩ |
    ⟨kept, place, depth, word, behind, fault, cuts, ended, long, failed⟩
  · rw [lexed]
  · rw [failed]
    refine ⟨kept, before, quote, rest, unclosed, rfl, ?_⟩
    show Token.lexChars (source.toList.take ((placeBehind before).offset source.toList)) = _
    have cutThere : source.toList.take ((placeBehind before).offset source.toList) = before := by
      rw [unclosed.whole, offset_placeBehind, List.take_left']
      rfl
    rw [cutThere, unclosed.lexChars_before]
  · rw [failed]
    exact ⟨rfl, kept, place, depth, word, behind, cuts, ended, long⟩

end ShellLisp
