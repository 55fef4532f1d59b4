import ShellLisp.Proofs.Reading.Occurrences

/-!
# White space exchanged in a text

Outside quoted texts and comments, white space in a source text is a piece of its own or part of a
word. Where it is a piece of its own it may be a space as well, and the tokens stay what and where
they are. A word goes on over the white space that does not end words, so a space in its place makes
another word of it.
-/

namespace ShellLisp
open Text

/-! ## The pieces that characters belong to -/

/-- The first of some pieces to reach over a position, which is counted from where they start. -/
def Piece.at? : List Piece → Nat → Option Piece
  | [], _ => none
  | piece :: rest, position =>
      if position < piece.spelling.length then some piece
      else at? rest (position - piece.spelling.length)

/-- The piece of a source text that the character at a position belongs to. -/
def pieceAt? (source : List Char) (position : Nat) : Option Piece :=
  (pieces .start 0 source).toOption.bind (Piece.at? · position)

def Piece.isComment (piece : Piece) : Bool := piece.spelling.head? == some '#'

def Piece.isQuoted (piece : Piece) : Bool :=
  match piece.lexeme with
  | some (.quoted _) => true
  | _ => false

theorem Piece.exists_at {found : List Piece} {before after : List Char} {c : Char}
    (whole : found.flatMap (·.spelling) = before ++ c :: after) :
    ∃ front piece back inside more, found = front ++ piece :: back ∧
      piece.spelling = inside ++ c :: more ∧ before = front.flatMap (·.spelling) ++ inside ∧
      after = more ++ back.flatMap (·.spelling) ∧ Piece.at? found before.length = some piece := by
  induction found generalizing before with
  | nil => simp at whole
  | cons piece rest ih =>
      have further (later : List Char) (split : before = piece.spelling ++ later)
          (behind : rest.flatMap (·.spelling) = later ++ c :: after) :
          ∃ front holder back inside more, piece :: rest = front ++ holder :: back ∧
            holder.spelling = inside ++ c :: more ∧
            before = front.flatMap (·.spelling) ++ inside ∧
            after = more ++ back.flatMap (·.spelling) ∧
            Piece.at? (piece :: rest) before.length = some holder := by
        obtain ⟨front, holder, back, inside, more, rfl, spelled, rfl, rest, here⟩ := ih behind
        refine ⟨piece :: front, holder, back, inside, more, rfl, spelled, by simp [split], rest, ?_⟩
        rw [Piece.at?, split, List.length_append, if_neg (by omega), Nat.add_sub_cancel_left, here]
      rw [List.flatMap_cons] at whole
      rcases List.append_eq_append_iff.mp whole with ⟨later, split, behind⟩ | ⟨tail, split, behind⟩
      · exact further later split behind
      · cases tail with
        | nil => exact further [] (by simpa using split.symm) (by simpa using behind.symm)
        | cons first more =>
            obtain ⟨rfl, rfl⟩ := List.cons.inj behind
            refine ⟨[], piece, rest, before, more, rfl, split, rfl, rfl, ?_⟩
            rw [Piece.at?, split, if_pos (by simp)]

/-! ## White space in one piece -/

/-- White space in a piece that is no comment, no quoted text and no new line is the whole piece, or
stands inside a word. -/
theorem Cut.IsFirst.of_blank {depth : Nat} {c blank : Char} {rest inside more : List Char}
    {cut : Cut}
    (first : cut.IsFirst depth c rest) (spelled : c :: rest.take cut.more = inside ++ blank :: more)
    (is : isBlank blank = true) (noNewline : blank ≠ '\n') (noComment : c ≠ '#')
    (noText : ∀ text, cut.lexeme ≠ some (.quoted text)) :
    (inside = [] ∧ more = [] ∧ c = blank ∧ cut = ⟨0, none, depth⟩) ∨
      ∃ tail lexeme, inside = c :: tail ∧ startsWord c = true ∧
        rest.takeWhile (!isWordBreak ·) = tail ++ blank :: more ∧
        Lexeme.ofWord (inside ++ blank :: more) = .ok lexeme ∧
        cut = ⟨(tail ++ blank :: more).length, some lexeme, depth⟩ := by
  have single (alone : c :: rest.take 0 = inside ++ blank :: more) :
      inside = [] ∧ more = [] ∧ c = blank := by
    rw [List.take_zero, eq_comm, List.append_eq_singleton_iff] at alone
    rcases alone with ⟨rfl, same⟩ | ⟨-, same⟩
    · obtain ⟨rfl, rfl⟩ := List.cons.inj same
      exact ⟨rfl, rfl, rfl⟩
    · cases same
  have other (alone : c :: rest.take 0 = inside ++ blank :: more) (mark : isBlank c = false) :
      False := by
    obtain ⟨-, -, rfl⟩ := single alone
    simp [is] at mark
  -- The brackets and marks are not white space, and a quoted text is excluded; words are left.
  cases first with
  | newline newline => exact absurd ((single spelled).2.2.symm.trans newline) noNewline
  | blank => exact .inl ⟨(single spelled).1, (single spelled).2.1, (single spelled).2.2, rfl⟩
  | comment comment => exact absurd comment noComment
  | opening opening =>
      refine (other spelled ?_).elim
      simp only [isOpening, Bool.or_eq_true, decide_eq_true_eq] at opening
      rcases opening with (rfl | rfl) | rfl <;> decide
  | closing closing =>
      refine (other spelled ?_).elim
      simp only [isClosing, Bool.or_eq_true, decide_eq_true_eq] at closing
      rcases closing with (rfl | rfl) | rfl <;> decide
  | quoted => exact absurd rfl (noText _)
  | widePipe pipe wide =>
      obtain ⟨tail, rfl⟩ := List.head?_eq_some_iff.mp wide
      have member : blank ∈ ['|', '>'] := by
        rw [pipe] at spelled
        exact spelled ▸ by simp
      simp only [List.mem_cons, List.not_mem_nil, or_false] at member
      rcases member with rfl | rfl <;> cases is
  | pipe pipe => exact (other spelled (pipe ▸ by decide)).elim
  | sequence sequence => exact (other spelled (sequence ▸ by decide)).elim
  | @word lexeme starts read =>
      rw [(take_run _ rest).1] at spelled
      rw [spelled] at read
      cases inside with
      | nil =>
          obtain ⟨rfl, -⟩ := List.cons.inj spelled
          simp [startsWord, is] at starts
      | cons first tail =>
          obtain ⟨rfl, run⟩ := List.cons.inj spelled
          exact .inr ⟨tail, lexeme, rfl, starts, run, read, by rw [run]; rfl⟩

/-! ## A space in its place -/

section
variable {source rest : List Char} {front back : List Piece} {place : Location} {depth : Nat}

theorem pieces_spaced {blank : Char} {behind : Scan}
    (cuts : Scan.Cuts ⟨.start, 0, source⟩ front ⟨place, depth, blank :: rest⟩)
    (noNewline : blank ≠ '\n')
    (later : Scan.Cuts ⟨place.afterText [blank], depth, rest⟩ back behind)
    (done : behind.left = []) :
    pieces .start 0 (front.flatMap (·.spelling) ++ ' ' :: rest) =
      .ok (front ++ ⟨place, [' '], none⟩ :: back) := by
  have still : Scan.Cuts ⟨.start, 0, front.flatMap (·.spelling) ++ ' ' :: rest⟩ front
      ⟨place, depth, ' ' :: rest⟩ := by
    refine cuts.exchanged fun _ done whole => Cut.first_of_look done whole fun x first => ?_
    cases first
    exact .inr (.inr ⟨Cut.ne_comment done whole noNewline, by decide⟩)
  have samePlace : place.afterText [' '] = place.afterText [blank] := by
    simp [Location.afterText, Location.next, noNewline]
  have space : Scan.Cuts ⟨place, depth, ' ' :: rest⟩ (⟨place, [' '], none⟩ :: back) behind :=
    @Scan.Cuts.piece place depth ' ' rest ⟨0, none, depth⟩ _ _ rfl
      (by simpa [samePlace] using later)
  rw [still.pieces_eq, space.pieces_eq, done, pieces_nil]
  simp [Except.map]

theorem exists_pieces_cutShort {c : Char} {tail behind : List Char} {found : List Piece}
    (cuts : Scan.Cuts ⟨.start, 0, source⟩ front ⟨place, depth, c :: rest⟩)
    (starts : startsWord c = true) (inside : ∀ x ∈ tail, isWordBreak x = false)
    (done : pieces .start 0 (front.flatMap (·.spelling) ++ c :: (tail ++ ' ' :: behind)) =
      .ok found) :
    ∃ lexeme others, Lexeme.ofWord (c :: tail) = .ok lexeme ∧
      found = front ++ ⟨place, c :: tail, some lexeme⟩ :: others := by
  have still : Scan.Cuts
      ⟨.start, 0, front.flatMap (·.spelling) ++ c :: (tail ++ ' ' :: behind)⟩ front
      ⟨place, depth, c :: (tail ++ ' ' :: behind)⟩ := cuts.of_sameLook fun x first => .inl first
  have run : (tail ++ ' ' :: behind).takeWhile (!isWordBreak ·) = tail :=
    takeWhile_word inside fun x first => .inl (Option.some.inj first).symm
  rw [still.pieces_eq] at done
  dsimp only at done
  rw [pieces_cons, first_of_startsWord starts, run] at done
  cases word : Lexeme.ofWord (c :: tail) with
  | error fault => simp [word, bind, Except.bind, Except.map] at done
  | ok lexeme =>
      simp only [word, bind, Except.bind, List.take_left, List.drop_left] at done
      split at done
      · cases done
      · rename_i others _
        cases done
        exact ⟨lexeme, others, rfl, rfl⟩

end

theorem eq_of_ofWord {first second : List Char} {lexeme : Lexeme}
    (one : Lexeme.ofWord first = .ok lexeme) (other : Lexeme.ofWord second = .ok lexeme) :
    first = second :=
  Option.some.inj ((spelling?_of_ofWord one).symm.trans (spelling?_of_ofWord other))

/-! ## The statement -/

/-- Every white-space character of a text that can be lexed belongs to a piece of it. Unless that is
a comment, a quoted text or a new line, a space may take its place if the piece says nothing: all
tokens stay what and where they are. If the piece says something, the character is none of the
separators of words, and with a space in its place the text says something else, if anything. -/
theorem lex_spaced {source : String} {tokens : List Token}
    (lexed : Token.lex source = .ok tokens) {before after : List Char} {blank : Char}
    (whole : source.toList = before ++ blank :: after) (is : isBlank blank = true)
    (noNewline : blank ≠ '\n') :
    ∃ piece, pieceAt? source.toList before.length = some piece ∧ blank ∈ piece.spelling ∧
      (piece.isComment = false → piece.isQuoted = false →
        (piece.lexeme = none →
          Token.lex (String.ofList (before ++ ' ' :: after)) = .ok tokens) ∧
        (piece.lexeme ≠ none → isWordBreak blank = false ∧
          ∀ others, Token.lex (String.ofList (before ++ ' ' :: after)) = .ok others →
            Token.lexemes others ≠ Token.lexemes tokens)) := by
  obtain ⟨found, cutOff, made⟩ := pieces_of_lex lexed
  obtain ⟨front, piece, back, inside, more, rfl, spelled, rfl, rfl, here⟩ :=
    Piece.exists_at ((pieces_spelling cutOff).trans whole)
  refine ⟨piece, by rw [pieceAt?, cutOff]; exact here, by simp [spelled],
    fun noComment noText => ?_⟩
  obtain ⟨behind, deep, cuts⟩ := Scan.cuts_of_pieces cutOff
  obtain ⟨between, frontCuts, backCuts⟩ := cuts.split
  cases backCuts with
  | @piece place depth c rest cut _ _ first later =>
      have behindPiece := later.left_eq
      rw [List.append_nil] at behindPiece
      have noMark : c ≠ '#' := by simpa [Piece.isComment] using noComment
      have noQuote : ∀ text, cut.lexeme ≠ some (.quoted text) := by
        intro text same
        simp [Piece.isQuoted, same] at noText
      rcases (Cut.isFirst_of_first first).of_blank spelled is noNewline noMark noQuote with
        ⟨rfl, rfl, rfl, rfl⟩ | ⟨tail, lexeme, rfl, starts, run, word, rfl⟩
      · refine ⟨fun _ => ?_, fun spoken => absurd rfl spoken⟩
        have behindBlank : rest = back.flatMap (·.spelling) := behindPiece
        have spaced := pieces_spaced frontCuts noNewline later rfl
        rw [Token.lex, String.toList_ofList, Token.lexChars, List.append_nil, List.nil_append,
          ← behindBlank, spaced, made]
        simp [Except.map, List.filterMap_cons, Piece.token?]
      · have unbroken : ∀ x ∈ tail ++ blank :: more, isWordBreak x = false := by
          intro x member
          rw [← run] at member
          simpa using List.mem_takeWhile_imp member
        refine ⟨fun silent => absurd silent (Option.some_ne_none _),
          fun _ => ⟨unbroken blank (by simp), fun others read same => ?_⟩⟩
        obtain ⟨rest', cutShort, -⟩ := pieces_of_lex read
        rw [String.toList_ofList, List.append_assoc, List.cons_append] at cutShort
        obtain ⟨shorter, back', shortWord, rfl⟩ := exists_pieces_cutShort frontCuts starts
          (fun x member => unbroken x (by simp [member])) cutShort
        have around := Token.lexChars_around cutOff rfl (ofWord_depthAfter word).1
        have aroundShort := Token.lexChars_around cutShort rfl (ofWord_depthAfter shortWord).1
        obtain rfl := Except.ok.inj (lexed.symm.trans around)
        rw [Token.lex, String.toList_ofList, List.append_assoc, List.cons_append,
          aroundShort] at read
        obtain rfl := Except.ok.inj read
        -- The tokens in front are the same, so the two words would be.
        simp only [Token.lexemes, List.map_append, List.map_cons, List.append_cancel_left_eq,
          List.cons.injEq] at same
        obtain rfl := same.1
        simpa using eq_of_ofWord shortWord word

/-- Of two spaces of one width, the first stands by itself and the second inside a word. -/
theorem lex_spaced_emSpaces :
    Token.lex "( f\u2003x)" = Token.lex "(\u2003f\u2003x)" ∧
      ∀ others, Token.lex "(\u2003f x)" = .ok others →
        Token.lexemes others ≠ [.bracket '(', .word "f\u2003x", .bracket ')'] := by
  have lexed : Token.lex "(\u2003f\u2003x)" = .ok [⟨.bracket '(', ⟨1, 1⟩⟩,
      ⟨.word "f\u2003x", ⟨1, 3⟩⟩, ⟨.bracket ')', ⟨1, 6⟩⟩] := by cbv
  have gap : pieceAt? "(\u2003f\u2003x)".toList 1 = some ⟨⟨1, 2⟩, ['\u2003'], none⟩ := by cbv
  have word : pieceAt? "(\u2003f\u2003x)".toList 3 =
      some ⟨⟨1, 3⟩, ['f', '\u2003', 'x'], some (.word "f\u2003x")⟩ := by cbv
  obtain ⟨first, here, -, keeps⟩ := @lex_spaced _ _ lexed ['(']
    ['f', '\u2003', 'x', ')'] '\u2003' (by cbv) (by decide) (by decide)
  obtain ⟨second, there, -, changes⟩ := @lex_spaced _ _ lexed ['(', '\u2003', 'f']
    ['x', ')'] '\u2003' (by cbv) (by decide) (by decide)
  obtain rfl := Option.some.inj (gap.symm.trans here)
  obtain rfl := Option.some.inj (word.symm.trans there)
  exact ⟨((keeps rfl rfl).1 rfl).trans lexed.symm, ((changes rfl rfl).2 (Option.some_ne_none _)).2⟩

/-- A form feed between two letters is white space outside quoted texts and comments, and makes one
word of them, unlike a space. -/
theorem lex_formFeed_joins :
    isBlank '\x0c' = true ∧
      (∃ piece, pieceAt? "a\x0cb".toList 1 = some piece ∧ piece.isComment = false ∧
        piece.isQuoted = false) ∧
      Token.lex "a\x0cb" = .ok [⟨.word "a\x0cb", ⟨1, 1⟩⟩] ∧
      Token.lex "a b" = .ok [⟨.word "a", ⟨1, 1⟩⟩, ⟨.word "b", ⟨1, 3⟩⟩] :=
  ⟨by decide, ⟨⟨⟨1, 1⟩, ['a', '\x0c', 'b'], some (.word "a\x0cb")⟩, by cbv, by cbv, by cbv⟩, by cbv,
    by cbv⟩

end ShellLisp
