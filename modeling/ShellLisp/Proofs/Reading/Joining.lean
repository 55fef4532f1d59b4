import ShellLisp.Proofs.Reading.Moved

/-!
# Joining texts by a line break

A text that can be parsed leaves nothing open: no bracket, no string and no comment. A text on the
lines behind it is therefore read as it is by itself, only further down, unless the last token of the
first text is an operator, which goes on behind the line break. The main statement is that the
statements of two texts joined by a line break are those of the first and then those of the second.
-/

namespace ShellLisp

/-! ## Statements -/

namespace Parsing

def statements (state : Parsing) : List Expr :=
  (state.finishedLines.filter (!·.isEmpty)).map Expr.statement

def finish (state : Parsing) (lastPlace : Location) : Except Failure (List Expr) :=
  match state.forms with
  | form :: _ => .error (.at lastPlace (.unterminatedForm (closerOf form.opener)))
  | [] => .ok state.statements

end Parsing

namespace Expr

/-- The statements that tokens write, when their brackets are not nested too deep. -/
def statementsWithin (limit : Nat) (tokens : List Token) : Except Failure (List Expr) := do
  let state ← tokens.foldlM (Parsing.stepWithin limit) .start
  state.finish (lastPlace tokens)

/-- The statements of a source text as they are written. -/
def statementsOf (source : String) : Except Failure (List Expr) := do
  let tokens ← Token.lex source
  statementsWithin depthLimits.brackets tokens

theorem parseWithin_eq_program (limit : Nat) (tokens : List Token) :
    parseWithin limit tokens = (statementsWithin limit tokens).map program := by
  rw [parseWithin, statementsWithin]
  cases tokens.foldlM (Parsing.stepWithin limit) .start with
  | error failure => rfl
  | ok state =>
      obtain ⟨forms, line, lines⟩ := state
      cases forms <;> rfl

theorem ofSource_eq_program (source : String) :
    ofSource source = (statementsOf source).map program := by
  rw [ofSource, statementsOf]
  cases Token.lex source with
  | error failure => rfl
  | ok tokens => exact parseWithin_eq_program _ tokens

end Expr

/-! ## Newlines between two rows of tokens -/

theorem settleNewlines_of_absorbs {first second : Option Lexeme}
    (same : absorbsNewline first = absorbsNewline second) (tokens : List Token) :
    settleNewlines first tokens = settleNewlines second tokens := by
  induction tokens with
  | nil => rfl
  | cons token rest ih => rw [settleNewlines, settleNewlines, same, ih]

theorem settleNewlines_append (before : Option Lexeme) (front back : List Token) :
    settleNewlines before (front ++ back) = settleNewlines before front ++
      settleNewlines (((settleNewlines before front).getLast?.map Token.lexeme).or before) back := by
  induction front generalizing before with
  | nil => rfl
  | cons token rest ih =>
      rw [List.cons_append, settleNewlines, settleNewlines]
      split
      · exact ih before
      · rw [ih, List.cons_append]
        congr 2
        cases settleNewlines (some token.lexeme) rest with
        | nil => rfl
        | cons => simp [List.getLast?_cons]

theorem settleNewlines_newline {newline : Token} (is : newline.lexeme.isNewline = true)
    (before : Option Lexeme) (rest : List Token) : settleNewlines before (newline :: rest) =
      if absorbsNewline before then settleNewlines none rest
      else newline :: settleNewlines none rest := by
  have absorbs : absorbsNewline (some newline.lexeme) = absorbsNewline none := by
    simp [absorbsNewline, is]
  rw [settleNewlines, is, Bool.true_and, settleNewlines_of_absorbs absorbs]
  split
  · rename_i same
    exact settleNewlines_of_absorbs (by rw [same]; rfl) rest
  · rfl

theorem head_settleNewlines (tokens : List Token) :
    ∀ token ∈ (settleNewlines none tokens).head?, token.lexeme.isNewline = false := by
  induction tokens with
  | nil => rintro _ ⟨⟩
  | cons token rest ih =>
      rw [settleNewlines]
      split
      · exact ih
      · rename_i kept
        rintro _ ⟨⟩
        simpa [absorbsNewline] using kept

theorem dropLastNewlines_newline (front : List Token) {newline : Token}
    (is : newline.lexeme.isNewline = true) :
    dropLastNewlines (front ++ [newline]) = dropLastNewlines front :=
  List.rdropWhile_concat_pos _ front newline is

theorem dropLastNewlines_other (front : List Token) {last : Token}
    (other : last.lexeme.isNewline = false) :
    dropLastNewlines (front ++ [last]) = front ++ [last] :=
  List.rdropWhile_concat_neg _ front last (by simp [other])

theorem dropLastNewlines_append (front : List Token) {back : List Token}
    (filled : dropLastNewlines back ≠ []) :
    dropLastNewlines (front ++ back) = front ++ dropLastNewlines back := by
  have some : back.reverse.dropWhile (·.lexeme.isNewline) ≠ [] := by
    simpa [dropLastNewlines] using filled
  rw [dropLastNewlines, List.reverse_append, List.dropWhile_append, if_neg (by simpa using some)]
  simp [dropLastNewlines]

theorem eq_nil_of_dropLastNewlines {tokens : List Token}
    (nothing : dropLastNewlines (settleNewlines none tokens) = []) :
    settleNewlines none tokens = [] := by
  have newlines := List.rdropWhile_eq_nil_iff.mp nothing
  cases settled : settleNewlines none tokens with
  | nil => rfl
  | cons first rest =>
      have other := head_settleNewlines tokens first (by rw [settled]; rfl)
      rw [newlines first (by rw [settled]; exact List.mem_cons_self)] at other
      cases other

/-- Settled tokens, then a newline and more: one newline stands between the two, or nothing is in
front. -/
theorem settleNewlines_joined {front : List Token} (back : List Token) {newline : Token}
    (is : newline.lexeme.isNewline = true)
    (ended : ∀ last ∈ (dropLastNewlines (settleNewlines none front)).getLast?,
      last.lexeme.isOperator = false) :
    (dropLastNewlines (settleNewlines none front) = [] ∧
        settleNewlines none (front ++ newline :: back) = settleNewlines none back) ∨
      ∃ between, between.lexeme.isNewline = true ∧
        settleNewlines none (front ++ newline :: back) =
          dropLastNewlines (settleNewlines none front) ++ between :: settleNewlines none back := by
  rw [settleNewlines_append, settleNewlines_newline is]
  rcases List.eq_nil_or_concat' (settleNewlines none front) with nothing | ⟨init, last, settled⟩
  · rw [nothing]
    exact .inl ⟨rfl, rfl⟩
  rw [settled] at ended ⊢
  refine .inr ?_
  -- A newline at the end of the first text is the one that is kept, and it absorbs the one in
  -- between.
  cases kind : last.lexeme.isNewline with
  | false =>
      rw [dropLastNewlines_other init kind] at ended ⊢
      have plain : absorbsNewline (some last.lexeme) = false := by
        simp [absorbsNewline, kind, ended last (by simp)]
      exact ⟨newline, is, by simp [plain]⟩
  | true =>
      have unabsorbed := not_absorbs_of_settleNewlines kind settled
      have kept : dropLastNewlines init = init := by
        rcases List.eq_nil_or_concat' init with rfl | ⟨most, other, rfl⟩
        · rfl
        · have plain : absorbsNewline (some other.lexeme) = false := by simpa using unabsorbed
          exact dropLastNewlines_other most (Bool.or_eq_false_iff.mp plain).1
      rw [dropLastNewlines_newline init kind, kept]
      exact ⟨last, kind, by simp [absorbsNewline, kind]⟩

/-- The tokens that stand between those of two texts joined by a line break: one newline, unless
there is nothing in front of it or behind it. -/
structure Between (front between back : List Token) : Prop where
  newlines : ∀ token ∈ between, token.lexeme.isNewline = true
  single : between.length ≤ 1
  apart : front ≠ [] → back ≠ [] → between ≠ []
  behind : back = [] → between = []

theorem dropLastNewlines_joined {front : List Token} (back : List Token) {newline : Token}
    (is : newline.lexeme.isNewline = true)
    (ended : ∀ last ∈ (dropLastNewlines (settleNewlines none front)).getLast?,
      last.lexeme.isOperator = false) :
    ∃ between, Between (dropLastNewlines (settleNewlines none front)) between
        (dropLastNewlines (settleNewlines none back)) ∧
      dropLastNewlines (settleNewlines none (front ++ newline :: back)) =
        dropLastNewlines (settleNewlines none front) ++ between ++
          dropLastNewlines (settleNewlines none back) := by
  rcases settleNewlines_joined back is ended with
    ⟨nothing, joined⟩ | ⟨between, isBetween, joined⟩
  · refine ⟨[], ⟨List.forall_mem_nil _, Nat.zero_le 1, fun some => absurd nothing some,
      fun _ => rfl⟩, ?_⟩
    rw [joined, nothing]
    rfl
  · rw [joined]
    by_cases last : dropLastNewlines (settleNewlines none back) = []
    · refine ⟨[], ⟨List.forall_mem_nil _, Nat.zero_le 1, fun _ some => absurd last some,
        fun _ => rfl⟩, ?_⟩
      rw [last, eq_nil_of_dropLastNewlines last, dropLastNewlines_newline _ isBetween,
        List.append_nil, List.append_nil]
      exact List.rdropWhile_idempotent _ _
    · refine ⟨[between], ⟨List.forall_mem_singleton.mpr isBetween, Nat.le_refl 1,
        fun _ _ => List.cons_ne_nil _ _, fun nothing => absurd nothing last⟩, ?_⟩
      rw [List.append_cons, dropLastNewlines_append _ last]

/-! ## Lexing -/

theorem foldl_depthAfter_of_drops {tokens fewer : List Token} (drops : DropsNewlines tokens fewer)
    (depth : Nat) : (Token.lexemes fewer).foldl Lexeme.depthAfter depth =
      (Token.lexemes tokens).foldl Lexeme.depthAfter depth := by
  induction drops generalizing depth with
  | nil => rfl
  | keep token _ ih => exact ih _
  | drop newline _ ih =>
      rw [ih, Token.lexemes, Token.lexemes, List.map_cons, List.foldl_cons,
        depthAfter_newline newline]

/-- How many line breaks are in front of a text that is joined to another one. -/
def lineBreaks (first : String) : Nat := first.toList.count '\n' + 1

/-- Behind a text with balanced brackets and a line break the lexer is as at the start, but further
down. -/
theorem pieces_joined {first : String} {found : List Piece}
    (cut : pieces .start 0 first.toList = .ok found)
    (balanced : openBrackets (Token.lexemes (found.filterMap Piece.token?)) = 0)
    (second : String) : ∃ place, pieces .start 0 (first ++ "\n" ++ second).toList =
      resultMovedDown (lineBreaks first)
        (fun later => found ++ ⟨place, ['\n'], some .newline⟩ ::
          later.map (·.movedDown (lineBreaks first)))
        (pieces .start 0 second.toList) := by
  obtain ⟨place, depth, cuts⟩ := Scan.cuts_of_pieces cut
  have spelled : found.flatMap (·.spelling) = first.toList := pieces_spelling cut
  have alike : SameLook [] ('\n' :: second.toList) := by
    rintro _ ⟨⟩
    exact .inr rfl
  have whole : (first ++ "\n" ++ second).toList = first.toList ++ '\n' :: second.toList := by simp
  have closed : depth = 0 := cuts.depth_eq.trans balanced
  have behind : place = placeBehind first.toList := by
    have there := cuts.place_eq
    rw [spelled] at there
    rw [← List.nil_append first.toList, placeBehind_append]
    exact there
  have nextLine : place.afterText ['\n'] = Location.start.movedDown (lineBreaks first) := by
    rw [behind, Location.movedDown, lineBreaks, Nat.add_comm]
    rfl
  refine ⟨place, ?_⟩
  rw [whole, ← spelled, (cuts.of_sameLook alike).pieces_eq, closed, pieces_cons]
  have newline : Cut.first place 0 '\n' second.toList = .ok ⟨0, some .newline, 0⟩ := rfl
  rw [newline]
  simp only [bind, Except.bind, List.take_zero, List.drop_zero, nextLine, pieces_movedDown]
  cases pieces .start 0 second.toList <;> rfl

theorem lex_joined {first : String} {front : List Token} (lexed : Token.lex first = .ok front)
    (balanced : openBrackets (Token.lexemes front) = 0)
    (ended : ∀ last ∈ front.getLast?, last.lexeme.isOperator = false) (second : String) :
    match Token.lex second with
    | .ok back => ∃ between, Between front between back ∧
        Token.lex (first ++ "\n" ++ second) =
          .ok (front ++ between ++ back.map (·.movedDown (lineBreaks first)))
    | .error failure => Token.lex (first ++ "\n" ++ second) =
        .error (failure.movedDown (lineBreaks first)) := by
  obtain ⟨found, cut, rfl⟩ := pieces_of_lex lexed
  have allBalanced : openBrackets (Token.lexemes (found.filterMap Piece.token?)) = 0 := by
    rwa [openBrackets, foldl_depthAfter_of_drops (dropLastNewlines_drops _),
      foldl_depthAfter_of_drops (settleNewlines_drops _ _)] at balanced
  obtain ⟨place, joined⟩ := pieces_joined cut allBalanced second
  rw [Token.lex, Token.lex, Token.lexChars, Token.lexChars, joined]
  cases pieces .start 0 second.toList with
  | error failure => rfl
  | ok later =>
      have isNewline : Lexeme.isNewline (Token.mk .newline place).lexeme = true := rfl
      obtain ⟨between, is, whole⟩ := dropLastNewlines_joined
        ((later.map (·.movedDown (lineBreaks first))).filterMap Piece.token?) isNewline ended
      rw [filterMap_token?_movedDown, settleNewlines_movedDown, dropLastNewlines_movedDown] at is whole
      refine ⟨between, ⟨is.newlines, is.single, ?_, ?_⟩, ?_⟩
      · exact fun front back => is.apart front (by simpa using back)
      · exact fun nothing => is.behind (List.map_eq_nil_iff.mpr nothing)
      · refine congrArg Except.ok (Eq.trans ?_ whole)
        simp only [List.filterMap_append, List.filterMap_cons, filterMap_token?_movedDown]
        rfl

/-! ## Parsing -/

theorem Expr.statement_movedDown (count : Nat) {body : List Expr} (filled : body ≠ []) :
    statement (body.map (movedDown count)) = (statement body).movedDown count := by
  rcases body with - | ⟨e, - | ⟨second, rest⟩⟩
  · exact absurd rfl filled
  · simp only [List.map_cons, List.map_nil, statement, isBareWord_movedDown, place_movedDown]
    split
    · rw [movedDown, movedDownAll_eq_map]
      rfl
    · rfl
  · simp [statement, movedDown, movedDownAll_eq_map, place_movedDown]

namespace Parsing

theorem statements_movedDown (count : Nat) (lines : List (List Expr)) :
    ((lines.map (·.map (Expr.movedDown count))).filter (!·.isEmpty)).map Expr.statement =
      ((lines.filter (!·.isEmpty)).map Expr.statement).map (Expr.movedDown count) := by
  have filled : (fun line : List Expr => !line.isEmpty) ∘ List.map (Expr.movedDown count) =
      fun line => !line.isEmpty := by
    funext line
    simp
  rw [List.filter_map, filled, List.map_map, List.map_map]
  refine List.map_congr_left fun line member => Expr.statement_movedDown count ?_
  simpa using (List.mem_filter.mp member).2

theorem statements_behind (count : Nat) (earlier : List (List Expr)) (state : Parsing) :
    (behind count earlier state).statements =
      (⟨[], [], earlier⟩ : Parsing).statements ++ state.statements.map (Expr.movedDown count) := by
  obtain ⟨forms, line, lines⟩ := state
  have split : (behind count earlier ⟨forms, line, lines⟩).finishedLines =
      earlier.reverse.map List.reverse ++
        (finishedLines ⟨forms, line, lines⟩).map (·.map (Expr.movedDown count)) := by
    simp [finishedLines, behind, Function.comp_def]
  have nothing : (⟨[], [], earlier⟩ : Parsing).finishedLines =
      earlier.reverse.map List.reverse ++ [[]] := by
    simp [finishedLines]
  simp only [statements, split, nothing, List.filter_append, List.map_append, statements_movedDown]
  simp

theorem finish_behind (count : Nat) (earlier : List (List Expr)) (state : Parsing)
    (place : Location) : (behind count earlier state).finish (place.movedDown count) =
      resultMovedDown count
        (fun later => (⟨[], [], earlier⟩ : Parsing).statements ++ later.map (Expr.movedDown count))
        (state.finish place) := by
  have said := statements_behind count earlier state
  obtain ⟨forms, line, lines⟩ := state
  cases forms with
  | nil => exact congrArg Except.ok said
  | cons form outer => rfl

theorem forms_of_foldlM {limit : Nat} {tokens : List Token} {state after : Parsing}
    (formed : Formed (Expr.Everywhere Expr.Counted) state)
    (outside : NewlinesOutside state.forms.length (Token.lexemes tokens))
    (done : tokens.foldlM (stepWithin limit) state = .ok after) :
    after.forms.length = (Token.lexemes tokens).foldl Lexeme.depthAfter state.forms.length := by
  induction tokens generalizing state with
  | nil =>
      cases done
      rfl
  | cons token rest ih =>
      obtain ⟨first, later⟩ := outside
      have one := step_outcome Expr.forms_counted formed (Expr.leaves_counted [token]) first
      rw [List.foldlM_cons] at done
      cases action : state.stepWithin limit token with
      | error failure => rw [action] at done; cases done
      | ok next =>
          rw [action] at done
          rw [stepWithin_ok action] at one
          obtain ⟨nextFormed, -, counted⟩ := one
          rw [ih nextFormed (by rw [counted]; exact later) done, counted]
          rfl

theorem stepWithin_newline (limit : Nat) {newline : Token} (is : newline.lexeme.isNewline = true)
    (line : List Expr) (lines : List (List Expr)) :
    stepWithin limit ⟨[], line, lines⟩ newline = .ok ⟨[], [], line :: lines⟩ := by
  obtain ⟨lexeme, place⟩ := newline
  cases lexeme with
  | newline => rfl
  | _ => cases is

end Parsing

namespace Expr

theorem lastPlace_movedDown (count : Nat) (front : List Token) {back : List Token}
    (filled : back ≠ []) :
    lastPlace (front ++ back.map (·.movedDown count)) = (lastPlace back).movedDown count := by
  rcases List.eq_nil_or_concat' back with rfl | ⟨most, last, rfl⟩
  · exact absurd rfl filled
  · simp [lastPlace, Token.movedDown]

/-- Behind tokens that leave no form open, further tokens add their own statements. -/
theorem statementsWithin_behind (limit count : Nat) {front : List Token}
    {earlier : List (List Expr)}
    (read : front.foldlM (Parsing.stepWithin limit) .start = .ok ⟨[], [], earlier⟩)
    (back : List Token) :
    statementsWithin limit (front ++ back.map (·.movedDown count)) =
      resultMovedDown count (fun later =>
        (⟨[], [], earlier⟩ : Parsing).statements ++ later.map (movedDown count))
          (statementsWithin limit back) := by
  have onward := Parsing.foldlM_stepWithin_behind count earlier limit .start back
  have start : Parsing.behind count earlier .start = ⟨[], [], earlier⟩ := rfl
  rw [statementsWithin, List.foldlM_append, read]
  simp only [bind, Except.bind]
  rw [← start, onward]
  by_cases filled : back = []
  · subst filled
    exact Parsing.finish_behind count earlier .start (lastPlace [])
  · rw [lastPlace_movedDown count front filled]
    exact resultMovedDown_bind count fun state => Parsing.finish_behind count earlier state _

theorem closed_of_statementsWithin {limit : Nat} {tokens : List Token} {earlier : List Expr}
    (parsed : statementsWithin limit tokens = .ok earlier) : ∃ line lines,
      tokens.foldlM (Parsing.stepWithin limit) .start = .ok ⟨[], line, lines⟩ ∧
        (⟨[], [], line :: lines⟩ : Parsing).statements = earlier := by
  rw [statementsWithin] at parsed
  cases action : tokens.foldlM (Parsing.stepWithin limit) .start with
  | error failure => rw [action] at parsed; cases parsed
  | ok state =>
      rw [action] at parsed
      obtain ⟨forms, line, lines⟩ := state
      cases forms with
      | cons form outer => cases parsed
      | nil =>
          cases parsed
          refine ⟨line, lines, rfl, ?_⟩
          simp [Parsing.statements, Parsing.finishedLines, List.filter_cons]

theorem balanced_of_statementsWithin {limit : Nat} {tokens : List Token} {earlier : List Expr}
    (outside : NewlinesOutside 0 (Token.lexemes tokens))
    (parsed : statementsWithin limit tokens = .ok earlier) :
    openBrackets (Token.lexemes tokens) = 0 := by
  obtain ⟨line, lines, read, -⟩ := closed_of_statementsWithin parsed
  exact (Parsing.forms_of_foldlM .start outside read).symm

theorem statementsWithin_joined {limit : Nat} {front between back : List Token}
    (is : Between front between back) {earlier : List Expr}
    (parsed : statementsWithin limit front = .ok earlier) (count : Nat) :
    statementsWithin limit (front ++ between ++ back.map (·.movedDown count)) =
      resultMovedDown count (fun later => earlier ++ later.map (movedDown count))
        (statementsWithin limit back) := by
  have whole := parsed
  obtain ⟨line, lines, read, rfl⟩ := closed_of_statementsWithin parsed
  rcases between with - | ⟨newline, - | ⟨other, more⟩⟩
  · rw [List.append_nil]
    by_cases last : back = []
    · subst last
      rw [List.map_nil, List.append_nil, whole]
      exact congrArg Except.ok (List.append_nil _).symm
    · obtain rfl : front = [] := by
        by_contra some
        exact is.apart some last rfl
      cases read
      have start : ([] : List Token).foldlM (Parsing.stepWithin limit) .start =
          .ok ⟨[], [], []⟩ := rfl
      exact statementsWithin_behind limit count start back
  · have newline := Parsing.stepWithin_newline limit (is.newlines newline (by simp)) line lines
    refine statementsWithin_behind limit count ?_ back
    rw [List.foldlM_append, read]
    simp only [bind, Except.bind, List.foldlM_cons, newline]
    rfl
  · exact absurd is.single (by simp)

theorem statementsOf_joined {first : String} {earlier : List Expr}
    (parsed : statementsOf first = .ok earlier)
    (ended : ∀ tokens, Token.lex first = .ok tokens →
      ∀ last ∈ tokens.getLast?, last.lexeme.isOperator = false) (second : String) :
    statementsOf (first ++ "\n" ++ second) =
      resultMovedDown (lineBreaks first)
        (fun later => earlier ++ later.map (movedDown (lineBreaks first)))
        (statementsOf second) := by
  rw [statementsOf] at parsed
  cases lexed : Token.lex first with
  | error failure => rw [lexed] at parsed; cases parsed
  | ok front =>
      rw [lexed] at parsed
      have balanced := balanced_of_statementsWithin (newlinesOutside_lex lexed) parsed
      have joined := lex_joined lexed balanced (ended front lexed) second
      rw [statementsOf, statementsOf]
      cases lexedToo : Token.lex second with
      | error failure =>
          rw [lexedToo] at joined
          simp only at joined
          rw [joined]
          rfl
      | ok back =>
          rw [lexedToo] at joined
          obtain ⟨between, is, whole⟩ := joined
          rw [whole]
          exact statementsWithin_joined is parsed (lineBreaks first)

/-- Programs compose by lines: behind a text that can be parsed and does not end in an operator, a
text can be parsed if it can be parsed by itself, and adds the statements that it has by itself,
further down. -/
theorem ofSource_joined {first : String} {tree : Option Expr} (parsed : ofSource first = .ok tree)
    (ended : ∀ tokens, Token.lex first = .ok tokens →
      ∀ last ∈ tokens.getLast?, last.lexeme.isOperator = false) (second : String) :
    (∀ source, ofSource source = (statementsOf source).map program) ∧
      ((∃ whole, ofSource (first ++ "\n" ++ second) = .ok whole) ↔
        ∃ later, ofSource second = .ok later) ∧
      ∃ earlier, statementsOf first = .ok earlier ∧ ∀ later, statementsOf second = .ok later →
        statementsOf (first ++ "\n" ++ second) =
          .ok (earlier ++ later.map (movedDown (lineBreaks first))) := by
  refine ⟨ofSource_eq_program, ?_⟩
  rw [ofSource_eq_program] at parsed
  cases found : statementsOf first with
  | error failure => rw [found] at parsed; cases parsed
  | ok earlier =>
      have joined := statementsOf_joined found ended second
      rw [ofSource_eq_program, ofSource_eq_program, joined]
      refine ⟨?_, earlier, rfl, ?_⟩
      · cases statementsOf second with
        | error failure => constructor <;> (rintro ⟨_, done⟩; cases done)
        | ok later => exact ⟨fun _ => ⟨_, rfl⟩, fun _ => ⟨_, rfl⟩⟩
      · intro later same
        rw [same]
        rfl

/-- A comment and an empty line in front of a line that goes on behind its pipe. -/
theorem ofSource_joined_threeLines :
    ∃ earlier, statementsOf "f 1 # one\n" = .ok earlier ∧
      ∀ later, statementsOf "$x |\ng" = .ok later →
        statementsOf "f 1 # one\n\n$x |\ng" = .ok (earlier ++ later.map (movedDown 2)) := by
  have lexed : Token.lex "f 1 # one\n" =
      .ok [⟨.word "f", ⟨1, 1⟩⟩, ⟨.number (.int 1) "1", ⟨1, 3⟩⟩] := by cbv
  have parsed : ofSource "f 1 # one\n" = .ok (some (.call ⟨1, 1⟩
      [.value ⟨1, 1⟩ (.word "f"), .value ⟨1, 3⟩ (.number (.int 1) "1")])) := by
    rw [ofSource, lexed]
    rfl
  refine (ofSource_joined parsed ?_ "$x |\ng").2.2
  intro tokens same last member
  rw [lexed] at same
  cases same
  cases member
  rfl

end Expr

end ShellLisp
