import ShellLisp.Proofs.Reading.Heads
import ShellLisp.Proofs.Reading.Alike
import ShellLisp.Proofs.Reading.Joining

/-!
# Words exchanged in a text

A word of a source text is exchanged for the written form of a call. The pieces in front of it stay
as they are and those behind it keep what they say, so the parser comes to the exchanged text in the
state in which it comes to the word. The main statement is that the two texts are read alike when
the call may stand for the word there, unless its brackets are too many.
-/

namespace ShellLisp
open ShellLisp.Expr (Interchangeable)

/-! ## Words in a text -/

/-- A piece of a source text, with the pieces in front of it and behind it. -/
structure Occurrence (source : String) where
  front : List Piece
  piece : Piece
  back : List Piece
  cut : pieces .start 0 source.toList = .ok (front ++ piece :: back)

namespace Occurrence
variable {source : String} (here : Occurrence source)

def text : String := String.ofList here.piece.spelling

/-- The source text with another text in the place of the piece. -/
def exchanged (text : String) : String :=
  String.ofList (here.front.flatMap (·.spelling) ++ text.toList ++ here.back.flatMap (·.spelling))

/-- The tokens in front of the piece, without the newlines that end no statement. -/
def before : List Token := settleNewlines none (here.front.filterMap Piece.token?)

def behind : List Token :=
  dropLastNewlines (settleNewlines here.piece.lexeme (here.back.filterMap Piece.token?))

def next? : Option Lexeme := (Token.lexemes here.behind).head?

/-- How far the parser has come when it comes to the piece. -/
def state : Except Failure Parsing := here.before.foldlM Parsing.step .start

/-- The brackets that are open in front of the piece leave no room for so many more. -/
def Full (more : Nat) : Prop :=
  ∃ state, here.state = .ok state ∧ depthLimits.brackets < state.forms.length + more

theorem exists_scan {c : Char} {more : List Char} (spelled : here.piece.spelling = c :: more)
    (starts : startsWord c = true) :
    ∃ place depth lexeme,
      Scan.Cuts ⟨.start, 0, source.toList⟩ here.front
        ⟨place, depth, c :: (more ++ here.back.flatMap (·.spelling))⟩ ∧
      Lexeme.ofWord (c :: more) = .ok lexeme ∧ here.piece = ⟨place, c :: more, some lexeme⟩ ∧
      Says depth (here.back.flatMap (·.spelling))
        (Token.lexemes (here.back.filterMap Piece.token?)) := by
  obtain ⟨behind, deep, cuts⟩ := Scan.cuts_of_pieces here.cut
  obtain ⟨between, front, back⟩ := cuts.split
  generalize here.piece = piece at *
  cases back with
  | @piece place depth d rest cut found after first later =>
      obtain ⟨rfl, taken⟩ := List.cons.inj spelled
      have left := later.left_eq
      rw [List.append_nil] at left
      rw [first_of_startsWord starts] at first
      cases word : Lexeme.ofWord (d :: rest.takeWhile (!isWordBreak ·)) with
      | error fault => rw [word] at first; cases first
      | ok lexeme =>
          rw [word] at first
          cases first
          rw [(take_run _ rest).1] at taken
          subst taken
          refine ⟨place, depth, lexeme, ?_, word, by rw [(take_run _ rest).1], ?_⟩
          · have whole := List.take_append_drop (rest.takeWhile (!isWordBreak ·)).length rest
            rw [(take_run _ rest).1] at whole
            rw [← left, whole]
            exact front
          · rw [← left]
            simpa using later.tells (.nil _)

end Occurrence

/-! ## Tokens of the exchanged text -/

/-- A piece in front of something else than a new line is no comment, which would go on over it. -/
theorem Cut.ne_comment {place : Location} {depth : Nat} {c d : Char} {inside rest : List Char}
    {cut : Cut} (done : Cut.first place depth d (inside ++ c :: rest) = .ok cut)
    (whole : cut.more = inside.length) (noNewline : c ≠ '\n') : d ≠ '#' := by
  rintro rfl
  have comment : Cut.first place depth '#' (inside ++ c :: rest) =
      .ok ⟨((inside ++ c :: rest).takeWhile (· ≠ '\n')).length, none, depth⟩ := rfl
  rw [comment] at done
  cases done
  obtain ⟨run, -⟩ := takeWhile_of_look whole fun x first => .inl first
  have inRun : ∀ x ∈ inside, decide (x ≠ '\n') = true := fun x member =>
    List.all_eq_true.mp List.all_takeWhile x (run.symm ▸ member)
  rw [List.takeWhile_append_of_pos inRun, List.takeWhile_cons] at run
  simp [noNewline] at run

theorem says_call {body : List Expr} (spelled : ∀ e ∈ body, e.Everywhere Expr.LeafSpelled)
    {place : Location} {depth : Nat} {rest : List Char} {lexemes : List Lexeme}
    (later : Says depth rest lexemes) :
    Says depth ((Expr.call place body).chars ++ rest)
      ((Expr.call place body).lexemes ++ lexemes) :=
  Expr.says_form (fun e member _ _ _ ends later => Expr.says_chars (spelled e member) ends later)
    (by decide) (by decide) later

theorem lexemes_settleNewlines {tokens others : List Token}
    (said : Token.lexemes tokens = Token.lexemes others) {first second : Option Lexeme}
    (same : absorbsNewline first = absorbsNewline second) :
    Token.lexemes (settleNewlines first tokens) = Token.lexemes (settleNewlines second others) := by
  induction tokens generalizing others first second with
  | nil =>
      rw [List.map_eq_nil_iff.mp said.symm]
      rfl
  | cons token rest ih =>
      obtain ⟨other, otherRest, rfl, here, there⟩ := List.map_eq_cons_iff.mp said.symm
      rw [settleNewlines, settleNewlines, here, same]
      split
      · exact ih there.symm same
      · rw [Token.lexemes, Token.lexemes, List.map_cons, List.map_cons, here]
        exact congrArg _ (ih there.symm rfl)

theorem lexemes_dropLastNewlines (tokens : List Token) :
    Token.lexemes (dropLastNewlines tokens) =
      (Token.lexemes tokens).rdropWhile Lexeme.isNewline := by
  rw [Token.lexemes, Token.lexemes, dropLastNewlines, List.map_reverse, List.rdropWhile]
  conv_rhs => rw [← List.map_reverse, List.dropWhile_map]
  rfl

theorem dropLastNewlines_behind (front : List Token) {last : Token}
    (plain : last.lexeme.isNewline = false) (back : List Token) :
    dropLastNewlines (front ++ [last] ++ back) = front ++ [last] ++ dropLastNewlines back := by
  induction back using List.reverseRecOn with
  | nil => rw [List.append_nil, dropLastNewlines_other front plain]; exact (List.append_nil _).symm
  | append_singleton rest token ih =>
      rw [← List.append_assoc]
      cases newline : token.lexeme.isNewline with
      | true => rw [dropLastNewlines_newline _ newline, dropLastNewlines_newline _ newline, ih]
      | false =>
          rw [dropLastNewlines_other _ newline, dropLastNewlines_other _ newline, List.append_assoc]

theorem settled_behind (front most back : List Token) {last : Token}
    (plain : ∀ token ∈ most ++ [last], token.lexeme.isNewline = false) :
    dropLastNewlines (settleNewlines none (front ++ (most ++ [last] ++ back))) =
      settleNewlines none front ++
        (most ++ [last] ++ dropLastNewlines (settleNewlines (some last.lexeme) back)) := by
  have kept : ∀ before, settleNewlines before (most ++ [last] ++ back) =
      most ++ [last] ++ settleNewlines (some last.lexeme) back := by
    intro before
    rw [settleNewlines_append, settleNewlines_of_noNewline plain]
    simp
  have single : last.lexeme.isNewline = false := plain last (by simp)
  rw [settleNewlines_append, kept, ← List.append_assoc, ← List.append_assoc,
    dropLastNewlines_behind _ single]
  simp

theorem Token.lexChars_around {source : List Char} {front back : List Piece} {piece : Piece}
    {lexeme : Lexeme} (cut : pieces .start 0 source = .ok (front ++ piece :: back))
    (said : piece.lexeme = some lexeme) (plain : lexeme.isNewline = false) :
    Token.lexChars source = .ok (settleNewlines none (front.filterMap Piece.token?) ++
      ⟨lexeme, piece.place⟩ ::
        dropLastNewlines (settleNewlines (some lexeme) (back.filterMap Piece.token?))) := by
  have single : ∀ token ∈ [] ++ [(⟨lexeme, piece.place⟩ : Token)],
      token.lexeme.isNewline = false := by simpa using plain
  have settled := settled_behind (front.filterMap Piece.token?) [] (back.filterMap Piece.token?) single
  rw [Token.lexChars, cut]
  simpa [Except.map, Piece.token?, said] using settled

theorem newlinesOutside_of_noNewline {lexemes : List Lexeme}
    (plain : ∀ lexeme ∈ lexemes, lexeme.isNewline = false) (depth : Nat) :
    NewlinesOutside depth lexemes := by
  induction lexemes generalizing depth with
  | nil => trivial
  | cons lexeme rest ih =>
      obtain ⟨here, later⟩ := List.forall_mem_cons.mp plain
      exact ⟨fun newline => by simp [here] at newline, ih later _⟩

theorem Parsing.tooDeep_of_readAs {limit : Nat} {state : Parsing}
    (formed : Formed (Expr.Everywhere Expr.Counted) state) {tokens : List Token} {e found : Expr}
    (said : Token.lexemes tokens = e.lexemes) (reads : Expr.ReadAs tokens found)
    {failure : Failure} (failed : tokens.foldlM (stepWithin limit) state = .error failure) :
    failure = .tooDeep ∧ limit < state.forms.length + e.nesting := by
  refine ⟨Expr.foldlM_stepWithin_tooDeep (reads state) failed, Nat.lt_of_not_le fun room => ?_⟩
  have nested := e.deepest_lexemes state.forms.length []
  rw [List.append_nil, ← said] at nested
  have fits : deepest state.forms.length (Token.lexemes tokens) ≤ limit := by
    rw [nested]
    exact Nat.max_le.mpr ⟨room, Nat.zero_le _⟩
  have unlimited := foldlM_stepWithin_eq Expr.forms_counted formed (Expr.leaves_counted tokens)
    (newlinesOutside_of_noNewline (said ▸ e.noNewline_lexemes) _) fits
  rw [failed, reads state] at unlimited
  cases unlimited

theorem Parsing.forms_le_of_foldlM {limit : Nat} {tokens : List Token} {state after : Parsing}
    (bounded : state.forms.length ≤ limit)
    (done : tokens.foldlM (stepWithin limit) state = .ok after) : after.forms.length ≤ limit := by
  induction tokens generalizing state with
  | nil =>
      cases done
      exact bounded
  | cons token rest ih =>
      rw [List.foldlM_cons] at done
      obtain ⟨next, step, later⟩ := exists_of_bind_ok done
      obtain ⟨read, -, checked⟩ := exists_of_bind_ok (show state.step token >>= _ = _ from step)
      refine ih ?_ later
      split at checked
      · cases checked
      · rename_i fits
        cases checked
        exact Nat.le_of_not_lt fits

namespace Occurrence
variable {source : String} (here : Occurrence source) {c : Char} {more : List Char}
  {lexeme : Lexeme} {body : List Expr}

/-- The token of a word, and the tokens of the call that it is exchanged for, between the same
tokens in front and tokens behind that say the same. -/
theorem exists_tokens (spelled : here.piece.spelling = c :: more) (starts : startsWord c = true)
    (word : Lexeme.ofWord (c :: more) = .ok lexeme) (item : lexeme.isOperator = false)
    (legible : ∀ e ∈ body, e.Everywhere Expr.LeafSpelled) :
    ∃ place middle others, Token.lexemes middle = (Expr.call .nowhere body).lexemes ∧
      Token.lex source = .ok (here.before ++ ⟨lexeme, place⟩ :: here.behind) ∧
      Token.lex (here.exchanged (Expr.call .nowhere body).text) =
        .ok (here.before ++ (middle ++ others)) ∧
      Token.lexemes here.behind = Token.lexemes others := by
  obtain ⟨place, depth, read, cuts, done, piece, later⟩ := here.exists_scan spelled starts
  rw [word] at done
  cases done
  have noNewline := (ofWord_depthAfter word).1
  have plain : absorbsNewline (some lexeme) = false := by simp [absorbsNewline, noNewline, item]
  -- The text in front is cut as before, now in front of a bracket.
  have front : Scan.Cuts ⟨.start, 0, (here.exchanged (Expr.call .nowhere body).text).toList⟩
      here.front
      ⟨place, depth, (Expr.call .nowhere body).chars ++ here.back.flatMap (·.spelling)⟩ := by
    rw [exchanged, String.toList_ofList, Expr.text, String.toList_ofList, List.append_assoc]
    refine cuts.exchanged fun _ done whole => Cut.first_of_look done whole fun x first => ?_
    cases first
    refine .inr (.inr ⟨Cut.ne_comment done whole ?_, by decide⟩)
    rintro rfl
    cases starts
  obtain ⟨found, cutOff, said⟩ := says_call legible later place
  have whole := front.pieces_eq
  dsimp only at whole
  rw [cutOff] at whole
  obtain ⟨middle, others, split, middleSaid, othersSaid⟩ := List.map_eq_append_iff.mp said
  have noNewlines : ∀ token ∈ middle, token.lexeme.isNewline = false := fun token member =>
    (Expr.call .nowhere body).noNewline_lexemes _ (middleSaid ▸ List.mem_map_of_mem member)
  obtain ⟨most, closing, rfl⟩ : ∃ (most : List Token) (closing : Location),
      middle = most ++ [⟨.bracket ')', closing⟩] := by
    rw [Expr.lexemes, ← List.cons_append] at middleSaid
    obtain ⟨most, tail, rfl, -, single⟩ := List.map_eq_append_iff.mp middleSaid
    obtain ⟨⟨_, closing⟩, rest, rfl, rfl, nothing⟩ := List.map_eq_cons_iff.mp single
    exact ⟨most, closing, by rw [List.map_eq_nil_iff.mp nothing]⟩
  have ends : absorbsNewline (some (.bracket ')')) = absorbsNewline (some lexeme) := plain.symm
  refine ⟨place, most ++ [(⟨.bracket ')', closing⟩ : Token)],
    dropLastNewlines (settleNewlines (some (.bracket ')')) others), middleSaid, ?_, ?_, ?_⟩
  · have around := Token.lexChars_around here.cut (congrArg Piece.lexeme piece) noNewline
    rw [Token.lex, around, before, behind, piece]
  · have settled := settled_behind (here.front.filterMap Piece.token?) most others noNewlines
    rw [Token.lex, Token.lexChars, whole]
    simpa [Except.map, split, before] using settled
  · rw [behind, piece, lexemes_dropLastNewlines, lexemes_dropLastNewlines,
      lexemes_settleNewlines othersSaid ends]

theorem step_of_leaf {make : Location → Expr}
    (leaf : ∀ place, lexeme.leaf? place = some (make place)) (state : Parsing) (place : Location) :
    state.step ⟨lexeme, place⟩ = .ok (state.add (make place)) := by
  have made := leaf place
  cases lexeme <;> first | cases made | (rw [← Option.some.inj made]; rfl)

/-- The parser comes to the word and to the call in one state, and reads on behind both. -/
theorem agree_exchanged (spelled : here.piece.spelling = c :: more) (starts : startsWord c = true)
    (word : Lexeme.ofWord (c :: more) = .ok lexeme) (item : lexeme.isOperator = false)
    {make : Location → Expr} (leaf : ∀ place, lexeme.leaf? place = some (make place))
    (legible : (Expr.call .nowhere body).Everywhere Expr.Legible)
    (alike : ∀ state, here.state = .ok state → ∀ place found,
      found.placeless = (Expr.call .nowhere body).shown → ∀ others,
        Token.lexemes here.behind = Token.lexemes others → ∀ limit p q,
          Agree (Option.Rel Interchangeable)
            (here.behind.foldlM (Parsing.stepWithin limit) (state.add (make place)) >>=
              fun after => Expr.ofParsing after p)
            (others.foldlM (Parsing.stepWithin limit) (state.add found) >>=
              fun after => Expr.ofParsing after q)) :
    Agree (Option.Rel Interchangeable) (Expr.ofSource source)
        (Expr.ofSource (here.exchanged (Expr.call .nowhere body).text)) ∨
      here.Full (Expr.call .nowhere body).nesting ∧
        Expr.ofSource (here.exchanged (Expr.call .nowhere body).text) = .error .tooDeep := by
  obtain ⟨-, items⟩ := Expr.everywhere_call.mp legible
  obtain ⟨place, middle, others, middleSaid, lexed, otherLexed, said⟩ :=
    here.exists_tokens spelled starts word item fun e member node below =>
      (items e member node below).spelled
  obtain ⟨found, shown, reads⟩ :=
    Expr.readAs_lexemes (fun node below => (legible node below).counted) middleSaid
  have first : Expr.ofSource source =
      Expr.parseWithin depthLimits.brackets (here.before ++ ⟨lexeme, place⟩ :: here.behind) := by
    rw [Expr.ofSource, lexed]
    rfl
  have second : Expr.ofSource (here.exchanged (Expr.call .nowhere body).text) =
      Expr.parseWithin depthLimits.brackets (here.before ++ (middle ++ others)) := by
    rw [Expr.ofSource, otherLexed]
    rfl
  rw [first, second, Expr.parseWithin, Expr.parseWithin, List.foldlM_append, List.foldlM_append]
  -- The same tokens stand in front, so both runs fail there or come to one state.
  cases run : here.before.foldlM (Parsing.stepWithin depthLimits.brackets) .start with
  | error failure => exact .inl (.error _ _)
  | ok state =>
      have fits := Parsing.forms_le_of_foldlM (Nat.zero_le _) run
      have outside : NewlinesOutside 0 (Token.lexemes here.before) := by
        have whole := newlinesOutside_lex lexed
        rw [Token.lexemes, List.map_append] at whole
        exact newlinesOutside_of_append whole
      have formed := Parsing.foldlM_stepWithin_outcome Expr.forms_counted depthLimits.brackets
        .start (Expr.leaves_counted here.before) outside
      rw [run] at formed
      obtain ⟨formed, -⟩ := formed
      have step : state.stepWithin depthLimits.brackets ⟨lexeme, place⟩ =
          .ok (state.add (make place)) := by
        rw [Parsing.stepWithin, step_of_leaf leaf]
        simp only [bind, Except.bind, Parsing.forms_length_add, if_neg (Nat.not_lt.mpr fits)]
      cases middleRun : middle.foldlM (Parsing.stepWithin depthLimits.brackets) state with
      | error failure =>
          obtain ⟨rfl, full⟩ := Parsing.tooDeep_of_readAs formed middleSaid reads middleRun
          right
          refine ⟨⟨state, foldlM_step_of_stepWithin run, full⟩, ?_⟩
          simp only [bind, Except.bind, List.foldlM_append, middleRun]
      | ok after =>
          obtain rfl : state.add found = after := by
            have done := foldlM_step_of_stepWithin middleRun
            rw [reads state] at done
            exact Except.ok.inj done
          left
          have agree := alike state (foldlM_step_of_stepWithin run) place found shown others said
            depthLimits.brackets (Expr.lastPlace (here.before ++ ⟨lexeme, place⟩ :: here.behind))
            (Expr.lastPlace (here.before ++ (middle ++ others)))
          simp only [bind, Except.bind, List.foldlM_append, List.foldlM_cons, step, middleRun]
            at agree ⊢
          exact agree

end Occurrence

namespace Expr

theorem placeless_placeless (e : Expr) : e.placeless.placeless = e.placeless := by
  have below {body : List Expr} (ih : ∀ e ∈ body, e.placeless.placeless = e.placeless) :
      (body.map placeless).map placeless = body.map placeless := by
    rw [List.map_map]
    exact List.map_congr_left ih
  induction e using Expr.induction with
  | call place body ih => simp only [placeless, placelessAll_eq_map, below ih]
  | array place body ih => simp only [placeless, placelessAll_eq_map, below ih]
  | map place body ih => simp only [placeless, placelessAll_eq_map, below ih]
  | _ => rfl

theorem sameReading_of_agree {source other : String}
    (agree : Agree (Option.Rel Interchangeable) (ofSource source) (ofSource other)) :
    SameReading (read source) (read other) := by
  refine sameReading_read ?_
  rw [outcome_read, outcome_read]
  generalize ofSource source = first at agree
  generalize ofSource other = second at agree
  cases agree with
  | error => rfl
  | ok related =>
      cases related with
      | none => rfl
      | some alike => exact congrArg (Option.map some) (desugar_of_interchangeable alike)

end Expr

/-! ## The statements -/

namespace Occurrence
variable {source : String} (here : Occurrence source) {c : Char} {more : List Char}
  {lexeme : Lexeme} {body : List Expr}

/-- The text is read alike when the piece is exchanged, unless that nests more brackets than are
allowed. -/
def ReadsAs (text : String) (more : Nat) : Prop :=
  Expr.SameReading (Expr.read source) (Expr.read (here.exchanged text)) ∨
    here.Full more ∧ Expr.read (here.exchanged text) = .error .tooDeep

variable {here} in
theorem ReadsAs.sameReading {text : String} {more : Nat} (reads : here.ReadsAs text more)
    {state : Parsing} (reached : here.state = .ok state)
    (room : state.forms.length + more ≤ depthLimits.brackets) :
    Expr.SameReading (Expr.read source) (Expr.read (here.exchanged text)) := by
  rcases reads with same | ⟨⟨other, reachedToo, full⟩, -⟩
  · exact same
  · obtain rfl : state = other := Except.ok.inj (reached.symm.trans reachedToo)
    exact absurd room (Nat.not_le.mpr full)

theorem readsAs_of_agree {text : String} {more : Nat}
    (parsed : Agree (Option.Rel Interchangeable) (Expr.ofSource source)
        (Expr.ofSource (here.exchanged text)) ∨
      here.Full more ∧ Expr.ofSource (here.exchanged text) = .error .tooDeep) :
    here.ReadsAs text more :=
  parsed.imp Expr.sameReading_of_agree fun ⟨full, deep⟩ => ⟨full, by rw [Expr.read, deep]; rfl⟩

/-- A word may be exchanged for a call that may stand for it everywhere. -/
theorem readsAs_item (spelled : here.piece.spelling = c :: more) (starts : startsWord c = true)
    (word : Lexeme.ofWord (c :: more) = .ok lexeme) (item : lexeme.isOperator = false)
    {make : Location → Expr} (leaf : ∀ place, lexeme.leaf? place = some (make place))
    (legible : (Expr.call .nowhere body).Everywhere Expr.Legible)
    (alike : ∀ place, Interchangeable (make place) (Expr.call .nowhere body).shown) :
    here.ReadsAs (Expr.call .nowhere body).text (Expr.call .nowhere body).nesting := by
  refine here.readsAs_of_agree (here.agree_exchanged spelled starts word item leaf legible ?_)
  intro state _ place found shown others said limit p q
  have same : Interchangeable (make place) found :=
    (alike place).trans (Expr.interchangeable_of_placeless
      (by rw [← shown, Expr.placeless_placeless]))
  have beside : Parsing.Beside .none (state.add (make place)) (state.add found) :=
    .add ⟨.refl state, .inl (Expr.forall₂_refl Interchangeable.refl _)⟩ same
  exact Expr.parse_of_beside beside said limit p q

/-- A word that is the head of a group may be exchanged for a call that may be the head instead. -/
theorem readsAs_head {state : Parsing} (reached : here.state = .ok state)
    (at_ : state.AtHead)
    (spelled : here.piece.spelling = c :: more) (starts : startsWord c = true)
    (word : Lexeme.ofWord (c :: more) = .ok lexeme) (item : lexeme.isOperator = false)
    {make : Location → Expr} (leaf : ∀ place, lexeme.leaf? place = some (make place))
    (legible : (Expr.call .nowhere body).Everywhere Expr.Legible)
    (change : ∀ place found, found.placeless = (Expr.call .nowhere body).shown →
      Expr.HeadChange (make place) found (state.standsAlone here.next?)) :
    here.ReadsAs (Expr.call .nowhere body).text (Expr.call .nowhere body).nesting := by
  refine here.readsAs_of_agree (here.agree_exchanged spelled starts word item leaf legible ?_)
  intro other reachedToo place found shown others said limit p q
  obtain rfl : state = other := Except.ok.inj (reached.symm.trans reachedToo)
  exact Parsing.parse_of_head at_ said (change place found shown) limit p q

end Occurrence

end ShellLisp
