import ShellLisp.Proofs.Reading.Brackets

/-!
# Tokens as slices of the source text

The tokens of a text are slices of it, in their order and apart from each other. A slice is the whole
spelling of its token, the place of the token is that of the slice's first character, and between
the slices there is nothing but white space and comments. A newline is a token only where it ends a
statement.
-/

namespace ShellLisp
open Text

/-! ## What slices look like -/

/-- The place of a character that has the given text before it. Only a newline ends a line. -/
def placeBehind (before : List Char) : Location :=
  ⟨before.count '\n' + 1, (before.reverse.takeWhile (· ≠ '\n')).length + 1⟩

/-- Text between tokens, given the text behind it: white space, and comments that each go on to the
end of their line. -/
inductive Skipped : List Char → List Char → Prop
  | nothing (rest : List Char) : Skipped [] rest
  | blank {c : Char} {gap rest : List Char} (is : isBlank c = true) (later : Skipped gap rest) :
      Skipped (c :: gap) rest
  | comment {text gap rest : List Char} (oneLine : '\n' ∉ text)
      (wholeLine : ∀ c ∈ (gap ++ rest).head?, c = '\n') (later : Skipped gap rest) :
      Skipped ('#' :: (text ++ gap)) rest

/-- What the inside of a quoted text says. Only double quotes know escapes. -/
inductive Quotes (quote : Char) : List Char → List Char → Prop
  | nothing : Quotes quote [] []
  | escape {next : Char} {inside content : List Char} (double : quote = '"')
      (later : Quotes quote inside content) :
      Quotes quote ('\\' :: next :: inside) (unescapeChar next ++ content)
  | plain {c : Char} {inside content : List Char} (other : c ≠ quote)
      (noEscape : ¬(c = '\\' ∧ quote = '"')) (later : Quotes quote inside content) :
      Quotes quote (c :: inside) (c :: content)

/-- The only spelling of a lexeme; quoted texts have many. -/
def Lexeme.spelling? : Lexeme → Option (List Char)
  | .word text => some text.toList
  | .quoted _ => none
  | .variable name => some ('$' :: name.toList)
  | .number _ spelling => some spelling.toList
  | .null => some ['n', 'u', 'l', 'l']
  | .bool true => some ['t', 'r', 'u', 'e']
  | .bool false => some ['f', 'a', 'l', 's', 'e']
  | .bracket symbol => some [symbol]
  | .newline => some ['\n']

/-- The slice of a text that a lexeme is read from, given the text behind it. -/
inductive Lexeme.SpelledBy (rest : List Char) : Lexeme → List Char → Prop
  | newline : SpelledBy rest .newline ['\n']
  | bracket {symbol : Char} (is : (isOpening symbol || isClosing symbol) = true) :
      SpelledBy rest (.bracket symbol) [symbol]
  | operator {text : String} (is : text ∈ operators)
      (longest : text = "|" → rest.head? ≠ some '>') : SpelledBy rest (.word text) text.toList
  | quoted {quote : Char} {inside content : List Char} (is : quote = '"' ∨ quote = '\'')
      (decoded : Quotes quote inside content) :
      SpelledBy rest (.quoted (String.ofList content)) (quote :: (inside ++ [quote]))
  | word {lexeme : Lexeme} {c : Char} {more : List Char} (starts : startsWord c = true)
      (unbroken : ∀ x ∈ more, isWordBreak x = false)
      (longest : ∀ x ∈ rest.head?, isWordBreak x = true)
      (read : Lexeme.ofWord (c :: more) = .ok lexeme)
      (spelling : lexeme.spelling? = some (c :: more)) : SpelledBy rest lexeme (c :: more)

/-- A text, with the text before it, cut into gaps and into the slices of its tokens. -/
inductive Sliced : List Char → List Char → List Token → Prop
  | done {before gap : List Char} (skipped : Skipped gap []) : Sliced before gap []
  | token {before gap slice rest : List Char} {lexeme : Lexeme} {others : List Token}
      (skipped : Skipped gap (slice ++ rest)) (spelled : lexeme.SpelledBy rest slice)
      (later : Sliced (before ++ gap ++ slice) rest others) :
      Sliced before (gap ++ (slice ++ rest)) (⟨lexeme, placeBehind (before ++ gap)⟩ :: others)

/-- How many brackets are open behind lexemes, whatever their kinds; none is where more of them are
closed. -/
def openBrackets (lexemes : List Lexeme) : Nat := lexemes.foldl Lexeme.depthAfter 0

/-- Each newline stands between two statements: something else and no operator is before it, no
bracket is open there, and something comes behind it. -/
def NewlinesSettled (lexemes : List Lexeme) : Prop :=
  ∀ before after, lexemes = before ++ .newline :: after →
    (∃ last, before.getLast? = some last ∧ last.isNewline = false ∧ last.isOperator = false) ∧
      openBrackets before = 0 ∧ after ≠ []

/-! ## Places -/

theorem placeBehind_concat (before : List Char) (c : Char) :
    placeBehind (before ++ [c]) = (placeBehind before).next c := by
  by_cases newline : c = '\n'
  · simp [placeBehind, Location.next, newline]
  · simp [placeBehind, Location.next, newline]

theorem placeBehind_append (before text : List Char) :
    placeBehind (before ++ text) = (placeBehind before).afterText text := by
  induction text generalizing before with
  | nil => simp [Location.afterText]
  | cons c rest ih =>
      rw [show before ++ c :: rest = before ++ [c] ++ rest by simp, ih, placeBehind_concat]
      rfl

/-! ## Gaps -/

theorem Skipped.append {gap next rest : List Char} (first : Skipped gap (next ++ rest))
    (second : Skipped next rest) : Skipped (gap ++ next) rest := by
  generalize behind : next ++ rest = text at first
  induction first with
  | nothing => exact second
  | blank is _ ih => exact .blank is (ih behind)
  | comment oneLine wholeLine _ ih =>
      subst behind
      rw [List.cons_append, List.append_assoc]
      exact .comment oneLine (by simpa using wholeLine) (ih rfl)

namespace Sliced
variable {before gap text : List Char} {tokens : List Token}

theorem skip (skipped : Skipped gap text) (sliced : Sliced (before ++ gap) text tokens) :
    Sliced before (gap ++ text) tokens := by
  cases sliced with
  | done last => exact .done (Skipped.append (by simpa using skipped) last)
  | token further spelled later =>
      rw [List.append_assoc before gap] at later ⊢
      rw [← List.append_assoc gap]
      exact .token (skipped.append further) spelled later

theorem dropNewline {place : Location} (sliced : Sliced before text (⟨.newline, place⟩ :: tokens)) :
    Sliced before text tokens := by
  cases sliced with
  | token skipped spelled later =>
      cases spelled with
      | newline => exact skip skipped (skip (.blank rfl (.nothing _)) later)
      | word starts unbroken longest read spelling =>
          obtain ⟨rfl, rfl⟩ : '\n' = _ ∧ [] = _ := by simpa [Lexeme.spelling?] using spelling
          cases starts

end Sliced

/-! ## Slices of single pieces -/

theorem quotes_of_readQuoted {quote : Char} {rest : List Char} {part : QuotedPart}
    (read : readQuoted quote rest = some part) :
    Quotes quote part.inside part.content ∧ rest = part.inside ++ quote :: part.rest := by
  induction rest using readQuoted.induct quote generalizing part with
  | case1 => cases read
  | case2 =>
      rw [readQuoted, if_pos rfl] at read
      cases read
      exact ⟨.nothing, rfl⟩
  | case3 c other =>
      rw [readQuoted, if_neg other] at read
      cases read
  | case4 next rest =>
      rw [readQuoted, if_pos rfl] at read
      cases read
      exact ⟨.nothing, rfl⟩
  | case5 c next rest other escape ih =>
      rw [readQuoted, if_neg other, if_pos escape] at read
      obtain ⟨found, later, rfl⟩ := Option.map_eq_some_iff.mp read
      obtain ⟨decoded, whole⟩ := ih later
      obtain ⟨rfl, double⟩ := escape
      exact ⟨.escape double decoded, congrArg (_ :: _ :: ·) whole⟩
  | case6 c next rest other noEscape ih =>
      rw [readQuoted, if_neg other, if_neg noEscape] at read
      obtain ⟨found, later, rfl⟩ := Option.map_eq_some_iff.mp read
      obtain ⟨decoded, whole⟩ := ih later
      exact ⟨.plain other noEscape decoded, congrArg (_ :: ·) whole⟩

theorem spelling?_of_ofWord {word : List Char} {lexeme : Lexeme}
    (read : Lexeme.ofWord word = .ok lexeme) : lexeme.spelling? = some word := by
  cases Lexeme.isOfWord_of_ofWord read with
  | named | number | other => simp [Lexeme.spelling?]
  | bool value => cases value <;> rfl
  | null => rfl

theorem take_run (kind : Char → Bool) (text : List Char) :
    text.take (text.takeWhile kind).length = text.takeWhile kind ∧
      ∀ c ∈ (text.drop (text.takeWhile kind).length).head?, kind c = false := by
  have run : text.takeWhile kind = text.take (text.takeWhile kind).length :=
    List.prefix_iff_eq_take.mp (List.takeWhile_prefix kind)
  have rest : text.drop (text.takeWhile kind).length = text.dropWhile kind := by
    have whole := List.take_append_drop (text.takeWhile kind).length text
    rw [← run] at whole
    exact List.append_cancel_left (whole.trans List.takeWhile_append_dropWhile.symm)
  refine ⟨run.symm, fun c first => ?_⟩
  have stopped := List.head?_dropWhile_not kind text
  rw [rest] at first
  rwa [show (text.dropWhile kind).head? = some c from first] at stopped

/-- The first piece of a text is the slice of its lexeme, or is skipped. -/
theorem first_slice {place : Location} {depth : Nat} {c : Char} {rest : List Char} {cut : Cut}
    (done : Cut.first place depth c rest = .ok cut) :
    (cut.lexeme = none ∧ Skipped (c :: rest.take cut.more) (rest.drop cut.more)) ∨
      ∃ lexeme, cut.lexeme = some lexeme ∧
        lexeme.SpelledBy (rest.drop cut.more) (c :: rest.take cut.more) := by
  have single {lexeme : Lexeme} (spelled : lexeme.SpelledBy rest [c]) :
      lexeme.SpelledBy (rest.drop 0) (c :: rest.take 0) := by simpa using spelled
  have alone (is : isBlank c = true) : Skipped (c :: rest.take 0) (rest.drop 0) :=
    .blank is (.nothing _)
  -- All but comments, quoted texts, wide pipes and words are one character long.
  cases Cut.isFirst_of_first done with
  | newline is =>
      subst is
      by_cases outermost : depth = 0
      · rw [if_pos outermost]
        exact .inr ⟨.newline, rfl, single .newline⟩
      · rw [if_neg outermost]
        exact .inl ⟨rfl, alone rfl⟩
  | blank is => exact .inl ⟨rfl, alone is⟩
  | comment is =>
      subst is
      obtain ⟨run, stopped⟩ := take_run (fun x => decide (x ≠ '\n')) rest
      refine .inl ⟨rfl, ?_⟩
      rw [run]
      have skipped : Skipped ('#' :: (rest.takeWhile (fun x => decide (x ≠ '\n')) ++ []))
          (rest.drop (rest.takeWhile fun x => decide (x ≠ '\n')).length) := by
        refine .comment (fun member => ?_) (fun x first => ?_) (.nothing _)
        · simpa using List.mem_takeWhile_imp member
        · simpa using stopped x first
      simpa using skipped
  | opening is => exact .inr ⟨_, rfl, single (.bracket (by simp [is]))⟩
  | closing is => exact .inr ⟨_, rfl, single (.bracket (by simp [is]))⟩
  | @quoted part is read =>
      obtain ⟨decoded, whole⟩ := quotes_of_readQuoted read
      refine .inr ⟨_, rfl, ?_⟩
      have slice : rest.take (part.inside.length + 1) = part.inside ++ [c] := by
        rw [whole, List.append_cons, List.take_left' (by simp)]
      rw [slice]
      exact .quoted is decoded
  | widePipe is wide =>
      subst is
      obtain ⟨tail, rfl⟩ := List.head?_eq_some_iff.mp wide
      have isOperator : "|>" ∈ operators := by decide
      exact .inr ⟨_, rfl, .operator isOperator nofun⟩
  | pipe is narrow =>
      subst is
      have isOperator : "|" ∈ operators := by decide
      exact .inr ⟨_, rfl, single (.operator isOperator fun _ => narrow)⟩
  | sequence is =>
      subst is
      have isOperator : ";" ∈ operators := by decide
      exact .inr ⟨_, rfl, single (.operator isOperator nofun)⟩
  | word starts read =>
      obtain ⟨run, stopped⟩ := take_run (!isWordBreak ·) rest
      refine .inr ⟨_, rfl, ?_⟩
      rw [run]
      refine .word starts (fun x member => ?_) (fun x first => ?_) read (spelling?_of_ofWord read)
      · simpa using List.mem_takeWhile_imp member
      · simpa using stopped x first

/-! ## Slices of whole texts -/

theorem sliced_pieces {source before : List Char} {depth : Nat} {found : List Piece}
    (done : pieces (placeBehind before) depth source = .ok found) :
    Sliced before source (found.filterMap Piece.token?) := by
  refine pieces_induction (motive := fun place _ source found => ∀ before,
      place = placeBehind before → Sliced before source (found.filterMap Piece.token?))
    (fun _ _ _ _ => .done (.nothing _)) (fun place depth c rest cut others first ih before at_ => ?_)
    done before rfl
  subst at_
  have later := ih (before ++ (c :: rest.take cut.more)) (placeBehind_append _ _).symm
  have whole : c :: rest = c :: rest.take cut.more ++ rest.drop cut.more := by simp
  rw [whole]
  rcases first_slice first with ⟨silent, skipped⟩ | ⟨lexeme, said, spelled⟩
  · simp only [List.filterMap_cons, Piece.token?, silent, Option.map_none]
    exact later.skip skipped
  · simp only [List.filterMap_cons, Piece.token?, said, Option.map_some]
    have token : Sliced before ([] ++ (c :: rest.take cut.more ++ rest.drop cut.more))
        (⟨lexeme, placeBehind (before ++ [])⟩ :: others.filterMap Piece.token?) :=
      .token (.nothing _) spelled (by simpa using later)
    simpa using token

inductive DropsNewlines : List Token → List Token → Prop
  | nil : DropsNewlines [] []
  | keep (token : Token) {tokens fewer : List Token} (later : DropsNewlines tokens fewer) :
      DropsNewlines (token :: tokens) (token :: fewer)
  | drop {token : Token} {tokens fewer : List Token} (newline : token.lexeme.isNewline = true)
      (later : DropsNewlines tokens fewer) : DropsNewlines (token :: tokens) fewer

/-- Newlines may be left out, since they are white space too. -/
theorem Sliced.dropNewlines {before text : List Char} {tokens fewer : List Token}
    (drops : DropsNewlines tokens fewer) (sliced : Sliced before text tokens) :
    Sliced before text fewer := by
  induction drops generalizing before text with
  | nil => exact sliced
  | keep token _ ih =>
      cases sliced with
      | token skipped spelled later => exact .token skipped spelled (ih later)
  | @drop token _ _ newline _ ih =>
      obtain ⟨lexeme, place⟩ := token
      cases lexeme with
      | newline => exact ih sliced.dropNewline
      | _ => cases newline

theorem settleNewlines_drops (before : Option Lexeme) (tokens : List Token) :
    DropsNewlines tokens (settleNewlines before tokens) := by
  induction tokens generalizing before with
  | nil => exact .nil
  | cons token rest ih =>
      unfold settleNewlines
      split
      · rename_i absorbed
        exact .drop (Bool.and_eq_true_iff.mp absorbed).1 (ih before)
      · exact .keep token (ih _)

theorem dropsNewlines_of_all {dropped : List Token}
    (newlines : ∀ token ∈ dropped, token.lexeme.isNewline = true) : DropsNewlines dropped [] := by
  induction dropped with
  | nil => exact .nil
  | cons token rest ih =>
      exact .drop (newlines token (by simp))
        (ih fun other member => newlines other (by simp [member]))

theorem DropsNewlines.behind (kept : List Token) {tokens fewer : List Token}
    (drops : DropsNewlines tokens fewer) : DropsNewlines (kept ++ tokens) (kept ++ fewer) := by
  induction kept with
  | nil => exact drops
  | cons token _ ih => exact .keep token ih

theorem dropLastNewlines_drops (tokens : List Token) :
    DropsNewlines tokens (dropLastNewlines tokens) := by
  have last : DropsNewlines (tokens.rtakeWhile fun token => token.lexeme.isNewline) [] := by
    refine dropsNewlines_of_all fun token member => ?_
    simpa using List.mem_takeWhile_imp (List.mem_reverse.mp member)
  have whole := last.behind (dropLastNewlines tokens)
  rwa [List.append_nil, dropLastNewlines, ← List.rdropWhile,
    List.rdropWhile_append_rtakeWhile] at whole

/-! ## Newlines between statements -/

theorem openBrackets_of_newlinesOutside {depth : Nat} {before after : List Lexeme}
    (outside : NewlinesOutside depth (before ++ .newline :: after)) :
    before.foldl Lexeme.depthAfter depth = 0 := by
  induction before generalizing depth with
  | nil => exact outside.1 rfl
  | cons lexeme rest ih => exact ih outside.2

theorem not_absorbs_of_settleNewlines {first : Option Lexeme} {tokens before after : List Token}
    {newline : Token} (is : newline.lexeme.isNewline = true)
    (settled : settleNewlines first tokens = before ++ newline :: after) :
    absorbsNewline ((before.getLast?.map Token.lexeme).or first) = false := by
  induction tokens generalizing first before with
  | nil => simp [settleNewlines] at settled
  | cons token rest ih =>
      rw [settleNewlines] at settled
      split at settled
      · exact ih settled
      · rename_i kept
        -- A newline is kept only if the token kept before it does not absorb it.
        cases before with
        | nil =>
            obtain ⟨rfl, -⟩ := List.cons.inj settled
            simpa [is] using kept
        | cons head others =>
            rw [List.cons_append] at settled
            obtain ⟨rfl, behind⟩ := List.cons.inj settled
            have later := ih behind
            cases others with
            | nil => simpa using later
            | cons => simpa [List.getLast?_cons] using later

theorem newlinesSettled_of_settled {found : List Token} {before after : List Lexeme}
    (outside : NewlinesOutside 0 (Token.lexemes (dropLastNewlines (settleNewlines none found))))
    (cut : Token.lexemes (dropLastNewlines (settleNewlines none found)) =
      before ++ .newline :: after) :
    (∃ last, before.getLast? = some last ∧ last.isNewline = false ∧ last.isOperator = false) ∧
      openBrackets before = 0 ∧ after ≠ [] := by
  obtain ⟨front, behind, whole, rfl, said⟩ := List.map_eq_append_iff.mp cut
  obtain ⟨newline, others, rfl, is, rfl⟩ := List.map_eq_cons_iff.mp said
  refine ⟨?_, openBrackets_of_newlinesOutside (cut ▸ outside), ?_⟩
  · -- The newlines dropped at the end do not change what stands before this one.
    obtain ⟨dropped, all⟩ := List.rdropWhile_prefix (fun token : Token => token.lexeme.isNewline)
      (settleNewlines none found)
    have settled : settleNewlines none found = front ++ newline :: (others ++ dropped) := by
      rw [← all, ← List.cons_append, ← List.append_assoc, ← whole]
      rfl
    have unabsorbed := not_absorbs_of_settleNewlines (by rw [is]; rfl) settled
    cases last : front.getLast? with
    | none => simp [last, absorbsNewline] at unabsorbed
    | some token =>
        refine ⟨token.lexeme, by simp [last], ?_⟩
        simpa [last, absorbsNewline] using unabsorbed
  · intro nothing
    obtain rfl : others = [] := by simpa using nothing
    have filled : dropLastNewlines (settleNewlines none found) ≠ [] := by simp [whole]
    have kept := List.rdropWhile_last_not (fun token : Token => token.lexeme.isNewline)
      (settleNewlines none found) filled
    refine kept ?_
    have last : (dropLastNewlines (settleNewlines none found)).getLast filled = newline := by
      simp [whole]
    exact (congrArg (fun token : Token => token.lexeme.isNewline) last).trans
      (by simp [is, Lexeme.isNewline])

/-- Lexing loses nothing: the tokens of a text are slices of it, in their order and each at the place
of its token, with only white space and comments between them, and the newlines among them separate
statements. -/
theorem lex_sliced {source : String} {tokens : List Token}
    (lexed : Token.lex source = .ok tokens) :
    Sliced [] source.toList tokens ∧ NewlinesSettled (Token.lexemes tokens) := by
  have outside := newlinesOutside_lex lexed
  unfold Token.lex Token.lexChars at lexed
  cases action : pieces .start 0 source.toList with
  | error failure => simp [action, Except.map] at lexed
  | ok found =>
      rw [action] at lexed
      cases lexed
      have whole : Sliced [] source.toList (found.filterMap Piece.token?) := sliced_pieces action
      exact ⟨(whole.dropNewlines (settleNewlines_drops none _)).dropNewlines
        (dropLastNewlines_drops _), fun _ _ => newlinesSettled_of_settled outside⟩

/-- A newline inside a bracket, a comment, a text with an escape and a newline between statements. -/
theorem lex_sliced_twoLines :
    Sliced [] "f [\n1] # c\n\n'a' |\n \"\\n\" g".toList
        [⟨.word "f", ⟨1, 1⟩⟩, ⟨.bracket '[', ⟨1, 3⟩⟩, ⟨.number (.int 1) "1", ⟨2, 1⟩⟩,
          ⟨.bracket ']', ⟨2, 2⟩⟩, ⟨.newline, ⟨2, 7⟩⟩, ⟨.quoted "a", ⟨4, 1⟩⟩, ⟨.word "|", ⟨4, 5⟩⟩,
          ⟨.quoted "\n", ⟨5, 2⟩⟩, ⟨.word "g", ⟨5, 7⟩⟩] ∧
      NewlinesSettled [.word "f", .bracket '[', .number (.int 1) "1", .bracket ']', .newline,
        .quoted "a", .word "|", .quoted "\n", .word "g"] := by
  have lexed : Token.lex "f [\n1] # c\n\n'a' |\n \"\\n\" g" =
      .ok [⟨.word "f", ⟨1, 1⟩⟩, ⟨.bracket '[', ⟨1, 3⟩⟩, ⟨.number (.int 1) "1", ⟨2, 1⟩⟩,
        ⟨.bracket ']', ⟨2, 2⟩⟩, ⟨.newline, ⟨2, 7⟩⟩, ⟨.quoted "a", ⟨4, 1⟩⟩, ⟨.word "|", ⟨4, 5⟩⟩,
        ⟨.quoted "\n", ⟨5, 2⟩⟩, ⟨.word "g", ⟨5, 7⟩⟩] := by cbv
  exact lex_sliced lexed

end ShellLisp
