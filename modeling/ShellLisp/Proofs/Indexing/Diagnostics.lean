import ShellLisp.Editor
import ShellLisp.Proofs.Failing.Places
import ShellLisp.Proofs.Indexing.Tolerant

/-!
# Diagnostics

A text that cannot be read has one diagnostic, and it starts at the first character of a token, or at
the quote of a string that is never closed.
-/

namespace ShellLisp

theorem Sliced.of_mem {before text : List Char} {tokens : List Token}
    (sliced : Sliced before text tokens) {token : Token} (member : token ∈ tokens) :
    ∃ earlier slice behind, text = earlier ++ (slice ++ behind) ∧
      token.place = placeBehind (before ++ earlier) ∧ token.lexeme.SpelledBy behind slice := by
  induction sliced with
  | done => cases member
  | @token before gap slice rest lexeme others skipped spelled later ih =>
      rcases List.mem_cons.mp member with rfl | further
      · exact ⟨gap, slice, rest, rfl, rfl, spelled⟩
      · obtain ⟨earlier, inner, behind, rfl, place, spelled⟩ := ih further
        exact ⟨gap ++ (slice ++ earlier), inner, behind, by simp, by simpa using place, spelled⟩

/-- Where something is written that a problem can be about: behind the given text there is a token of
the source text, or a quote whose string is never closed. -/
inductive WrittenBehind (source : String) (before : List Char) : Prop
  | token {tokens : List Token} {token : Token} {slice behind : List Char}
      (lexed : Token.lex source = .ok tokens) (member : token ∈ tokens)
      (place : token.place = placeBehind before)
      (whole : source.toList = before ++ (slice ++ behind))
      (spelled : token.lexeme.SpelledBy behind slice)
  | openString {kept : List Piece} {quote : Char} {behind : List Char}
      (unclosed : Unclosed source.toList kept before quote behind)

theorem exists_lexTolerant {source : String} (whole : ∀ fault, Token.lex source ≠ .error (.fault fault)) :
    ∃ tokens, Token.lexTolerant source.toList = .ok tokens := by
  have outcome := lexTolerant_outcome source
  rcases lex_outcome source with ⟨tokens, lexed⟩ | ⟨_, _, _, _, _, failed⟩ |
    ⟨_, _, _, _, _, fault, _, _, _, failed⟩
  · rw [lexed] at outcome
    exact ⟨tokens, outcome⟩
  · rw [failed] at outcome
    obtain ⟨_, _, _, _, _, _, tolerant⟩ := outcome
    exact ⟨_, tolerant⟩
  · exact absurd failed (whole fault)

theorem diagnostics_of_read {source : String} {problem : Problem} {before : List Char}
    (failed : Expr.read source = .error (.problem problem))
    (here : problem.place = some (placeBehind before)) :
    ∃ document, Document.ofText source = .ok document ∧
      document.diagnostics = [⟨⟨before.count '\n', (before.reverse.takeWhile (· ≠ '\n')).length,
        (before.reverse.takeWhile (· ≠ '\n')).length + 1⟩, problem.cause.message⟩] := by
  have whole : ∀ fault, Token.lex source ≠ .error (.fault fault) := by
    intro fault lexed
    rw [Expr.read, Expr.ofSource, lexed] at failed
    cases failed
  obtain ⟨tokens, tolerant⟩ := exists_lexTolerant whole
  refine ⟨⟨source, collectSymbols [] tokens, some problem⟩, ?_, ?_⟩
  · simp only [Document.ofText, DocumentIndex.ofText, tolerant, failed, bind, Except.bind]
    rfl
  · simp only [Document.diagnostics, here, Option.map_some, Option.getD_some, Location.zeroBased,
      placeBehind]
    rfl

/-- What is wrong with a text that cannot be read is told at the first character of a token, or at the
quote of a string that is never closed; there the diagnostic of the text starts. -/
theorem read_problem {source : String} {problem : Problem}
    (failed : Expr.read source = .error (.problem problem)) :
    problem.cause.kind ∈ [.reading, .type, .arity] ∧
      ∃ before, WrittenBehind source before ∧ problem.place = some (placeBehind before) ∧
        placeBehind before ≠ .nowhere ∧
        ∃ document, Document.ofText source = .ok document ∧
          document.diagnostics = [⟨⟨before.count '\n', (before.reverse.takeWhile (· ≠ '\n')).length,
            (before.reverse.takeWhile (· ≠ '\n')).length + 1⟩, problem.cause.message⟩] := by
  have somewhere (before : List Char) : placeBehind before ≠ .nowhere := by
    intro same
    cases congrArg Location.line same
  rcases lex_outcome source with ⟨tokens, lexed⟩ | ⟨kept, before, quote, rest, unclosed, lexed⟩ |
    ⟨_, _, _, _, _, fault, _, _, _, lexed⟩
  · have all : ∀ token ∈ tokens, ∃ before, WrittenBehind source before ∧
        placeBehind before = token.place := by
      intro token member
      obtain ⟨before, slice, behind, whole, place, spelled⟩ := (lex_sliced lexed).1.of_mem member
      exact ⟨before, .token lexed member place whole spelled, place.symm⟩
    have blames : FailsOnly (Failure.Blames fun place => ∃ before, WrittenBehind source before ∧
        placeBehind before = place) (Expr.read source) := Expr.read_blames lexed all
    obtain ⟨kind, place, here, before, written, rfl⟩ := blames _ failed
    exact ⟨kind, before, written, here, somewhere before, diagnostics_of_read failed here⟩
  · have found : problem = ⟨.unterminatedText, some (placeBehind before)⟩ := by
      rw [Expr.read, Expr.ofSource, lexed] at failed
      cases failed
      rfl
    have here : problem.place = some (placeBehind before) := by rw [found]
    refine ⟨by rw [found]; exact List.mem_cons_self, before, .openString unclosed, here,
      somewhere before, diagnostics_of_read failed here⟩
  · rw [Expr.read, Expr.ofSource, lexed] at failed
    cases failed

/-- A bracket on the second line that closes nothing. -/
theorem read_problem_bracket :
    ∃ before, WrittenBehind "(f)\n )" before ∧ placeBehind before = ⟨2, 2⟩ ∧
      ∃ document, Document.ofText "(f)\n )" = .ok document ∧
        (document.diagnostics.map (·.message)) = ["Unexpected ')'"] := by
  have lexed : Token.lex "(f)\n )" = .ok [⟨.bracket '(', ⟨1, 1⟩⟩, ⟨.word "f", ⟨1, 2⟩⟩,
      ⟨.bracket ')', ⟨1, 3⟩⟩, ⟨.newline, ⟨1, 4⟩⟩, ⟨.bracket ')', ⟨2, 2⟩⟩] := by cbv
  have failed : Expr.read "(f)\n )" = .error (.problem ⟨.unexpected ')', some ⟨2, 2⟩⟩) := by
    rw [Expr.read, Expr.ofSource, lexed]
    rfl
  obtain ⟨-, before, written, here, -, document, made, shown⟩ := read_problem failed
  exact ⟨before, written, (Option.some.inj here).symm, document, made, by rw [shown]; rfl⟩

end ShellLisp
