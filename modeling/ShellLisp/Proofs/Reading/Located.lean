import ShellLisp.Proofs.Reading.Grammar
import ShellLisp.Proofs.Reading.Slices

/-!
# Tokens and the expressions they are read as

The places of the tokens of a text come in the order of the text. Reading keeps places: a form has
the place of its opening bracket and a leaf that of its token. What the parser has read so far is
therefore a row of located tokens for the lines, and one for each form that is still open.
-/

namespace ShellLisp

/-! ## Places in their order -/

namespace Location

def Before (first second : Location) : Prop :=
  first.line < second.line ∨ first.line = second.line ∧ first.column < second.column

theorem Before.trans {first second third : Location} (left : first.Before second)
    (right : second.Before third) : first.Before third := by
  unfold Before at *
  omega

theorem Before.ne {first second : Location} (before : first.Before second) : first ≠ second := by
  rintro rfl
  unfold Before at before
  omega

theorem before_next (place : Location) (c : Char) : place.Before (place.next c) := by
  unfold next
  split
  · exact .inl (Nat.lt_succ_self _)
  · exact .inr ⟨rfl, Nat.lt_succ_self _⟩

theorem before_afterText (place : Location) {text : List Char} (filled : text ≠ []) :
    place.Before (place.afterText text) := by
  induction text generalizing place with
  | nil => exact absurd rfl filled
  | cons c rest ih =>
      by_cases last : rest = []
      · subst last
        exact place.before_next c
      · exact (place.before_next c).trans (ih (place.next c) last)

end Location

theorem Lexeme.SpelledBy.ne_nil {lexeme : Lexeme} {slice rest : List Char}
    (spelled : lexeme.SpelledBy rest slice) : slice ≠ [] := by
  cases spelled with
  | @operator text is longest =>
      simp only [operators, List.mem_cons, List.not_mem_nil, or_false] at is
      rcases is with rfl | rfl | rfl <;> decide
  | newline | bracket | quoted | word => exact List.cons_ne_nil _ _

/-- Places come in the order of the tokens, and in lines that are counted from one. -/
structure Token.InOrder (tokens : List Token) : Prop where
  increasing : tokens.Pairwise fun first second => first.place.Before second.place
  counted : ∀ token ∈ tokens, 0 < token.place.line

theorem Sliced.places {before text : List Char} {tokens : List Token}
    (sliced : Sliced before text tokens) :
    (∀ token ∈ tokens, ∃ more, token.place = placeBehind (before ++ more)) ∧
      tokens.Pairwise fun first second => first.place.Before second.place := by
  induction sliced with
  | done => exact ⟨nofun, .nil⟩
  | @token before gap slice rest lexeme others _ spelled _ ih =>
      obtain ⟨behind, increasing⟩ := ih
      refine ⟨List.forall_mem_cons.mpr ⟨⟨gap, rfl⟩, fun token member => ?_⟩,
        List.pairwise_cons.mpr ⟨fun token member => ?_, increasing⟩⟩
      · obtain ⟨more, place⟩ := behind token member
        exact ⟨gap ++ slice ++ more, by simp [place]⟩
      · obtain ⟨more, place⟩ := behind token member
        have filled : slice ++ more ≠ [] := List.append_ne_nil_of_left_ne_nil spelled.ne_nil more
        have later : token.place = (placeBehind (before ++ gap)).afterText (slice ++ more) := by
          rw [place, List.append_assoc, placeBehind_append]
        rw [later]
        exact Location.before_afterText _ filled

theorem inOrder_lex {source : String} {tokens : List Token}
    (lexed : Token.lex source = .ok tokens) : Token.InOrder tokens := by
  obtain ⟨behind, increasing⟩ := (lex_sliced lexed).1.places
  refine ⟨increasing, fun token member => ?_⟩
  obtain ⟨more, place⟩ := behind token member
  rw [place]
  exact Nat.succ_pos _

theorem Token.InOrder.of_append {first second : List Token}
    (ordered : Token.InOrder (first ++ second)) : Token.InOrder first ∧ Token.InOrder second := by
  obtain ⟨increasing, counted⟩ := ordered
  obtain ⟨left, right, -⟩ := List.pairwise_append.mp increasing
  exact ⟨⟨left, fun token member => counted token (by simp [member])⟩,
    ⟨right, fun token member => counted token (by simp [member])⟩⟩

theorem Token.InOrder.of_cons {token : Token} {rest : List Token}
    (ordered : Token.InOrder (token :: rest)) :
    0 < token.place.line ∧ Token.InOrder rest ∧ ∀ other ∈ rest, token.place.Before other.place := by
  obtain ⟨increasing, counted⟩ := ordered
  obtain ⟨before, later⟩ := List.pairwise_cons.mp increasing
  exact ⟨counted token (by simp), ⟨later, fun other member => counted other (by simp [member])⟩,
    before⟩

/-! ## What a row of tokens is read as -/

/-- Tokens and the expressions they write, with their places and without a newline. -/
inductive Reads : List Token → List Expr → Prop
  | nil : Reads [] []
  | leaf {token : Token} {rest : List Token} {e : Expr} {others : List Expr}
      (leaf : token.lexeme.leaf? token.place = some e) (later : Reads rest others) :
      Reads (token :: rest) (e :: others)
  | form {opener : Char} {place closing : Location} {inside rest : List Token}
      {body others : List Expr} (opening : isOpening opener = true) (inner : Reads inside body)
      (later : Reads rest others) :
      Reads (⟨.bracket opener, place⟩ :: (inside ++ ⟨.bracket (closerOf opener), closing⟩ :: rest))
        (.ofForm opener place body :: others)

/-- Tokens and the expressions they write, with newlines between the expressions. -/
inductive ReadsLines : List Token → List Expr → Prop
  | nil : ReadsLines [] []
  | row {before row : List Token} {items others : List Expr} (earlier : ReadsLines before items)
      (reads : Reads row others) : ReadsLines (before ++ row) (items ++ others)
  | newline {before : List Token} {items : List Expr} (earlier : ReadsLines before items)
      (place : Location) : ReadsLines (before ++ [⟨.newline, place⟩]) items

theorem Reads.append {first second : List Token} {items others : List Expr}
    (left : Reads first items) (right : Reads second others) :
    Reads (first ++ second) (items ++ others) := by
  induction left with
  | nil => exact right
  | leaf leaf _ ih => exact .leaf leaf ih
  | form opening inner _ _ ih =>
      rw [List.cons_append, List.append_assoc, List.cons_append]
      exact .form opening inner ih

theorem place_of_leaf? {lexeme : Lexeme} {place : Location} {e : Expr}
    (leaf : lexeme.leaf? place = some e) : e.place = place := by
  cases lexeme <;> cases leaf <;> rfl

namespace Parsing

/-- The tokens that led to a state: those of its lines, and for each open form those of the bracket
and of the items so far. -/
inductive ReadFrom : Parsing → List Token → Prop
  | outside {line : List Expr} {lines : List (List Expr)} {tokens : List Token}
      (reads : ReadsLines tokens ((line :: lines).reverse.flatMap List.reverse)) :
      ReadFrom ⟨[], line, lines⟩ tokens
  | inside {form : OpenForm} {outer : List OpenForm} {line : List Expr} {lines : List (List Expr)}
      {before inner : List Token} (opening : isOpening form.opener = true)
      (around : ReadFrom ⟨outer, line, lines⟩ before) (reads : Reads inner form.items.reverse) :
      ReadFrom ⟨form :: outer, line, lines⟩
        (before ++ ⟨.bracket form.opener, form.place⟩ :: inner)

theorem ReadFrom.start : ReadFrom .start [] := .outside .nil

theorem ReadFrom.add {state : Parsing} {tokens more : List Token} {e : Expr}
    (read : state.ReadFrom tokens) (reads : Reads more [e]) :
    (state.add e).ReadFrom (tokens ++ more) := by
  cases read with
  | outside earlier =>
      refine .outside ?_
      simpa using earlier.row reads
  | inside opening around inner =>
      rw [List.append_assoc, List.cons_append]
      refine .inside opening around ?_
      simpa using inner.append reads

theorem ReadFrom.step {state after : Parsing} {tokens : List Token} {token : Token}
    (read : state.ReadFrom tokens) (done : state.step token = .ok after) :
    after.ReadFrom (tokens ++ [token]) := by
  have asLeaf := @step_leaf token
  obtain ⟨lexeme, place⟩ := token
  cases lexeme with
  | newline =>
      cases read with
      | outside earlier =>
          cases done
          refine .outside ?_
          simpa using earlier.newline place
      | inside => cases done
  | bracket symbol =>
      by_cases opening : isOpening symbol = true
      · rw [step_opening state opening] at done
        cases done
        exact .inside opening read .nil
      -- The bracket that closes a form makes what was read inside it one item of the row around it.
      · have closes : state.step ⟨.bracket symbol, place⟩ = state.bracket place symbol := rfl
        rw [closes, bracket, if_neg fun is => opening (isOpening_iff.mpr is)] at done
        cases read with
        | outside => cases done
        | @inside form outer line lines before inner isOpener around inside =>
            dsimp only at done
            split at done
            · rename_i matching
              subst matching
              cases closed : form.close with
              | error failure => simp [closed, Except.map] at done
              | ok e =>
                  have admits := OpenForm.admits_of_close closed
                  rw [form.close_of_admits isOpener admits] at closed
                  cases closed
                  rw [form.close_of_admits isOpener admits] at done
                  cases done
                  rw [List.append_assoc, List.cons_append]
                  exact around.add (.form isOpener inside .nil)
            · cases done
  | _ =>
      obtain ⟨e, leaf, adds⟩ := asLeaf (by rintro ⟨⟩) (by rintro ⟨⟩)
      rw [adds] at done
      cases done
      exact read.add (.leaf leaf .nil)

theorem ReadFrom.foldlM_step {more : List Token} {state after : Parsing} {tokens : List Token}
    (read : state.ReadFrom tokens) (done : more.foldlM Parsing.step state = .ok after) :
    after.ReadFrom (tokens ++ more) := by
  induction more generalizing state tokens with
  | nil =>
      cases done
      rwa [List.append_nil]
  | cons token rest ih =>
      rw [List.foldlM_cons] at done
      obtain ⟨next, action, later⟩ := exists_of_bind_ok done
      have whole := ih (read.step action) later
      rwa [List.append_assoc] at whole

end Parsing

/-- The tree of a text is made of lines of expressions that its tokens write. -/
theorem Expr.readsLines_of_parse {tokens : List Token} {result : Option Expr}
    (parsed : Expr.parse tokens = .ok result) :
    ∃ lines : List (List Expr), result = program (lines.map statement) ∧
      ReadsLines tokens lines.flatten := by
  unfold Expr.parse at parsed
  obtain ⟨state, action, finished⟩ := exists_of_bind_ok parsed
  have read := Parsing.ReadFrom.start.foldlM_step action
  rw [List.nil_append] at read
  cases read with
  | inside => cases finished
  | @outside line lines _ reads =>
      cases finished
      refine ⟨_, rfl, ?_⟩
      rw [List.flatten_filter_not_isEmpty]
      simpa [Parsing.finishedLines, List.flatMap_def] using reads

end ShellLisp
