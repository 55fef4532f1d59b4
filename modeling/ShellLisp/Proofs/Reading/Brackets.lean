import Mathlib.Data.List.DropRight
import ShellLisp.Proofs.Reading.Spelling

/-!
# Brackets and newlines

The lexer counts brackets without looking at their kinds, and says a newline only where it counts
none. Here the brackets of lexemes are counted in the same way, for lexed text and for trees.
-/

namespace ShellLisp

/-! ## Counting brackets -/

/-- How many brackets are open behind a lexeme, none being open where one is closed too many. -/
def Lexeme.depthAfter (depth : Nat) : Lexeme → Nat
  | .bracket symbol => if isOpening symbol then depth + 1 else depth - 1
  | _ => depth

/-- The largest number of brackets that are open behind one of some lexemes. -/
def deepest : Nat → List Lexeme → Nat
  | _, [] => 0
  | depth, lexeme :: rest => max (lexeme.depthAfter depth) (deepest (lexeme.depthAfter depth) rest)

namespace Expr

mutual

def nesting : Expr → Nat
  | .call _ body => nestingAll body + 1
  | .array _ body => nestingAll body + 1
  | .map _ body => nestingAll body + 1
  | _ => 0

def nestingAll : List Expr → Nat
  | [] => 0
  | e :: rest => max e.nesting (nestingAll rest)

end

section
variable {body : List Expr} (each : ∀ e ∈ body, ∀ depth rest,
  deepest depth (e.lexemes ++ rest) = max (depth + e.nesting) (deepest depth rest))
include each

theorem deepest_lexemesAll (depth : Nat) (rest : List Lexeme) :
    max depth (deepest depth (lexemesAll body ++ rest)) =
      max (depth + nestingAll body) (deepest depth rest) := by
  induction body with
  | nil => rfl
  | cons e others ih =>
      have later := ih fun x member => each x (by simp [member])
      rw [lexemesAll, List.append_assoc, each e (by simp), nestingAll]
      omega

theorem deepest_form {opener closer : Char} (opening : isOpening opener = true)
    (closing : isOpening closer = false) (depth : Nat) (rest : List Lexeme) :
    deepest depth (.bracket opener :: (lexemesAll body ++ [.bracket closer]) ++ rest) =
      max (depth + (nestingAll body + 1)) (deepest depth rest) := by
  have inside := deepest_lexemesAll each (depth + 1) (.bracket closer :: rest)
  simp only [List.cons_append, List.append_assoc, List.nil_append, deepest, Lexeme.depthAfter,
    opening, closing, if_true, Bool.false_eq_true, if_false, Nat.add_sub_cancel] at inside ⊢
  omega

end

theorem deepest_lexemes (e : Expr) (depth : Nat) (rest : List Lexeme) :
    deepest depth (e.lexemes ++ rest) = max (depth + e.nesting) (deepest depth rest) := by
  induction e using Expr.induction generalizing depth rest with
  | call place body ih => exact deepest_form ih rfl rfl depth rest
  | array place body ih => exact deepest_form ih rfl rfl depth rest
  | map place body ih => exact deepest_form ih rfl rfl depth rest
  | value place literal => cases literal <;> rfl
  | command place name => rfl
  | reference place name => rfl

end Expr

/-- Newlines are found only where no bracket is open. -/
def NewlinesOutside : Nat → List Lexeme → Prop
  | _, [] => True
  | depth, lexeme :: rest =>
      (lexeme.isNewline = true → depth = 0) ∧ NewlinesOutside (lexeme.depthAfter depth) rest

/-- What tokens say, the newlines left out. -/
def Token.spoken (tokens : List Token) : List Lexeme :=
  (Token.lexemes tokens).filter (!·.isNewline)

theorem Token.spoken_append (first second : List Token) :
    spoken (first ++ second) = spoken first ++ spoken second := by
  simp [spoken, lexemes]

theorem spoken_of_lexemes {tokens : List Token} {e : Expr}
    (said : Token.lexemes tokens = e.lexemes) :
    Token.spoken tokens = e.lexemes := by
  rw [Token.spoken, said]
  exact List.filter_eq_self.mpr fun lexeme member => by simp [e.noNewline_lexemes lexeme member]

theorem depthAfter_newline {lexeme : Lexeme} (newline : lexeme.isNewline = true) (depth : Nat) :
    lexeme.depthAfter depth = depth := by
  cases lexeme <;> first | rfl | cases newline

theorem newlinesOutside_of_append {depth : Nat} {first second : List Lexeme}
    (outside : NewlinesOutside depth (first ++ second)) : NewlinesOutside depth first := by
  induction first generalizing depth with
  | nil => trivial
  | cons lexeme rest ih => exact ⟨outside.1, ih outside.2⟩

/-! ## Newlines of lexed text -/

theorem ofWord_depthAfter {word : List Char} {lexeme : Lexeme}
    (done : Lexeme.ofWord word = .ok lexeme) :
    lexeme.isNewline = false ∧ ∀ depth, lexeme.depthAfter depth = depth := by
  cases Lexeme.isOfWord_of_ofWord done <;> exact ⟨rfl, fun _ => rfl⟩

theorem isOpening_of_isClosing {c : Char} (closing : isClosing c = true) : isOpening c = false := by
  simp only [isClosing, Bool.or_eq_true, decide_eq_true_eq] at closing
  rcases closing with (rfl | rfl) | rfl <;> decide

/-- The lexer counts the brackets of what it says, and says a newline only where none is open. -/
theorem first_depth {place : Location} {depth : Nat} {c : Char} {rest : List Char} {cut : Cut}
    (done : Cut.first place depth c rest = .ok cut) :
    (cut.lexeme = none ∧ cut.depth = depth) ∨
      ∃ lexeme, cut.lexeme = some lexeme ∧ (lexeme.isNewline = true → depth = 0) ∧
        cut.depth = lexeme.depthAfter depth := by
  cases firstPiece_of_first done with
  | silent => exact .inl ⟨rfl, rfl⟩
  | newline outermost => exact .inr ⟨.newline, rfl, fun _ => outermost, rfl⟩
  | opening is => exact .inr ⟨_, rfl, nofun, by simp [Lexeme.depthAfter, is]⟩
  | closing is => exact .inr ⟨_, rfl, nofun, by simp [Lexeme.depthAfter, isOpening_of_isClosing is]⟩
  | quoted => exact .inr ⟨_, rfl, nofun, rfl⟩
  | operator => exact .inr ⟨_, rfl, nofun, rfl⟩
  | word starts read =>
      obtain ⟨noNewline, counted⟩ := ofWord_depthAfter read
      exact .inr ⟨_, rfl, fun newline => by simp [noNewline] at newline, (counted depth).symm⟩

theorem newlinesOutside_pieces {source : List Char} {place : Location} {depth : Nat}
    {found : List Piece} (done : pieces place depth source = .ok found) :
    NewlinesOutside depth (Token.lexemes (found.filterMap Piece.token?)) := by
  refine pieces_induction (motive := fun _ depth _ found =>
      NewlinesOutside depth (Token.lexemes (found.filterMap Piece.token?)))
    (fun _ _ => trivial) (fun place depth c rest cut others first later => ?_) done
  rcases first_depth first with ⟨silent, same⟩ | ⟨lexeme, said, outside, counted⟩
  · rw [same] at later
    simp only [List.filterMap_cons, Piece.token?, silent, Option.map_none]
    exact later
  · rw [counted] at later
    simp only [List.filterMap_cons, Piece.token?, said, Option.map_some]
    exact ⟨outside, later⟩

theorem newlinesOutside_settleNewlines (before : Option Lexeme) {depth : Nat} {tokens : List Token}
    (outside : NewlinesOutside depth (Token.lexemes tokens)) :
    NewlinesOutside depth (Token.lexemes (settleNewlines before tokens)) := by
  induction tokens generalizing before depth with
  | nil => trivial
  | cons token rest ih =>
      unfold settleNewlines
      split
      · rename_i absorbed
        have newline : token.lexeme.isNewline = true := (Bool.and_eq_true_iff.mp absorbed).1
        have later := outside.2
        rw [depthAfter_newline newline] at later
        exact ih before later
      · exact ⟨outside.1, ih _ outside.2⟩

theorem newlinesOutside_lex {source : String} {tokens : List Token}
    (lexed : Token.lex source = .ok tokens) : NewlinesOutside 0 (Token.lexemes tokens) := by
  obtain ⟨found, cut, rfl⟩ := pieces_of_lex lexed
  have settled := newlinesOutside_settleNewlines none (newlinesOutside_pieces cut)
  -- The newlines that are dropped stand at the end.
  obtain ⟨dropped, whole⟩ := List.rdropWhile_prefix
    (fun token : Token => token.lexeme.isNewline)
    (settleNewlines none (found.filterMap Piece.token?))
  rw [← whole, Token.lexemes, List.map_append] at settled
  exact newlinesOutside_of_append settled

end ShellLisp
