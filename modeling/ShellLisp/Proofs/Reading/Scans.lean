import ShellLisp.Proofs.Reading.Slices

/-!
# Scans

Lexing stopped between two pieces: what is left of the text, and the place and the depth at which
the lexer goes on. A piece is cut off without looking further than one character behind it, so the
pieces in front of a stop do not change when the text behind it is exchanged for one that starts with
the same character, for nothing, or for a new line.
-/

namespace ShellLisp
open Text

/-! ## One piece -/

theorem readQuoted_of_quotes {quote : Char} {inside content : List Char}
    (decoded : Quotes quote inside content) (rest : List Char) :
    readQuoted quote (inside ++ quote :: rest) = some ⟨content, inside, rest⟩ := by
  induction decoded with
  | nothing => cases rest <;> simp [readQuoted]
  | escape double _ ih =>
      subst double
      simp only [List.cons_append, readQuoted_escape, ih]
      rfl
  | @plain c inside content other noEscape _ ih =>
      obtain ⟨next, more, same⟩ : ∃ next more, inside ++ quote :: rest = next :: more := by
        cases inside <;> exact ⟨_, _, rfl⟩
      rw [List.cons_append, same, readQuoted, if_neg other, if_neg noEscape, ← same, ih]
      rfl

/-- Another text that may stand behind a stop: it starts as the text there does, or with a new line,
or is empty. -/
def SameLook (rest other : List Char) : Prop := ∀ x ∈ other.head?, x ∈ rest.head? ∨ x = '\n'

theorem takeWhile_of_look {p : Char → Bool} {inside rest other : List Char}
    (whole : ((inside ++ rest).takeWhile p).length = inside.length)
    (look : ∀ x ∈ other.head?, x ∈ rest.head? ∨ p x = false) :
    (inside ++ rest).takeWhile p = inside ∧ (inside ++ other).takeWhile p = inside := by
  have run : (inside ++ rest).takeWhile p = inside := by
    have start : (inside ++ rest).takeWhile p <+: inside ++ rest := List.takeWhile_prefix p
    rw [List.prefix_iff_eq_take.mp start, whole, List.take_left']
    rfl
  have inRun : ∀ x ∈ inside, p x = true := fun x member =>
    List.all_eq_true.mp List.all_takeWhile x (run.symm ▸ member)
  have nothing : rest.takeWhile p = [] := by
    rw [List.takeWhile_append_of_pos inRun] at run
    exact List.append_right_eq_self.mp run
  refine ⟨run, ?_⟩
  rw [List.takeWhile_append_of_pos inRun, List.append_right_eq_self]
  cases other with
  | nil => rfl
  | cons x tail =>
      refine List.takeWhile_cons_of_neg ?_
      rcases look x rfl with first | stops
      · obtain ⟨behind, rfl⟩ := List.head?_eq_some_iff.mp first
        intro holds
        rw [List.takeWhile_cons_of_pos holds] at nothing
        cases nothing
      · simp [stops]

/-- A piece is cut off without looking further than the character behind it; what ends a word ends
every piece but a comment. -/
theorem Cut.first_of_look {place : Location} {depth : Nat} {c : Char}
    {inside rest other : List Char} {cut : Cut}
    (done : Cut.first place depth c (inside ++ rest) = .ok cut) (whole : cut.more = inside.length)
    (look : ∀ x ∈ other.head?, x ∈ rest.head? ∨ x = '\n' ∨ c ≠ '#' ∧ isWordBreak x = true) :
    Cut.first place depth c (inside ++ other) = .ok cut := by
  refine IsFirst.first ?_ place
  -- A comment, a quoted text, a pipe and a word are what is cut with a look at the text behind.
  cases isFirst_of_first done with
  | newline is => exact .newline is
  | blank is noNewline => exact .blank is noNewline
  | comment is =>
      obtain ⟨same, still⟩ := takeWhile_of_look whole fun x first =>
        (look x first).imp id fun newline => by
          simp [newline.resolve_right fun ⟨other, _⟩ => other is]
      have again : IsFirst depth c (inside ++ other) _ := .comment is
      rw [still] at again
      rwa [same]
  | opening is => exact .opening is
  | closing is => exact .closing is
  | @quoted part is read =>
      obtain ⟨decoded, cutThere⟩ := quotes_of_readQuoted read
      rw [List.append_cons] at cutThere
      obtain ⟨rfl, -⟩ := List.append_inj cutThere (by simpa using whole.symm)
      have again : readQuoted c (part.inside ++ [c] ++ other) =
          some ⟨part.content, part.inside, other⟩ := by
        rw [List.append_assoc, List.singleton_append, readQuoted_of_quotes decoded]
      have quoted := @IsFirst.quoted depth _ _ _ is again
      exact quoted
  | widePipe is wide =>
      obtain ⟨x, rfl⟩ := List.length_eq_one_iff.mp whole.symm
      exact .widePipe is wide
  | pipe is narrow =>
      obtain rfl := List.length_eq_zero_iff.mp whole.symm
      refine .pipe is fun wide => ?_
      rcases look '>' wide with same | same | ⟨-, stops⟩
      · exact narrow same
      · cases same
      · revert stops
        decide
  | sequence is => exact .sequence is
  | word starts read =>
      obtain ⟨same, still⟩ := takeWhile_of_look whole fun x first =>
        (look x first).imp id fun stops => by
          rcases stops with rfl | ⟨-, stops⟩
          · decide
          · simp [stops]
      rw [same, ← still] at read
      have again : IsFirst depth c (inside ++ other) _ := .word starts read
      rw [still] at again
      rwa [same]

theorem Cut.first_of_sameLook {place : Location} {depth : Nat} {c : Char}
    {inside rest other : List Char} {cut : Cut}
    (done : Cut.first place depth c (inside ++ rest) = .ok cut) (whole : cut.more = inside.length)
    (alike : SameLook rest other) : Cut.first place depth c (inside ++ other) = .ok cut :=
  first_of_look done whole fun x first => (alike x first).imp id .inl

theorem Cut.more_le {place : Location} {depth : Nat} {c : Char} {rest : List Char} {cut : Cut}
    (done : Cut.first place depth c rest = .ok cut) : cut.more ≤ rest.length := by
  have run (p : Char → Bool) : (rest.takeWhile p).length ≤ rest.length :=
    (List.takeWhile_prefix p).length_le
  cases isFirst_of_first done with
  | comment | word => exact run _
  | quoted is read =>
      obtain ⟨-, whole⟩ := quotes_of_readQuoted read
      simp [whole]
  | widePipe is wide =>
      obtain ⟨tail, rfl⟩ := List.head?_eq_some_iff.mp wide
      simp
  | _ => exact Nat.zero_le _

/-! ## Rows of pieces -/

/-- Where the lexer has come to in a text: the place and the depth, and the text that is left. -/
structure Scan where
  place : Location
  depth : Nat
  left : List Char

namespace Scan

/-- The lexer cuts some pieces off a text. -/
inductive Cuts : Scan → List Piece → Scan → Prop
  | done (scan : Scan) : Cuts scan [] scan
  | piece {place : Location} {depth : Nat} {c : Char} {rest : List Char} {cut : Cut}
      {found : List Piece} {after : Scan} (first : Cut.first place depth c rest = .ok cut)
      (later : Cuts ⟨place.afterText (c :: rest.take cut.more), cut.depth, rest.drop cut.more⟩
        found after) :
      Cuts ⟨place, depth, c :: rest⟩ (⟨place, c :: rest.take cut.more, cut.lexeme⟩ :: found) after

variable {scan after : Scan} {found : List Piece}

theorem Cuts.pieces_eq (cuts : scan.Cuts found after) :
    pieces scan.place scan.depth scan.left =
      (pieces after.place after.depth after.left).map (found ++ ·) := by
  induction cuts with
  | done scan => cases pieces scan.place scan.depth scan.left <;> rfl
  | @piece place depth c rest cut found after first _ ih =>
      rw [pieces_cons, first]
      simp only [bind, Except.bind, ih]
      cases pieces after.place after.depth after.left <;> rfl

theorem exists_cuts (scan : Scan) : ∃ found after, scan.Cuts found after ∧
    (after.left = [] ∨ ∃ c rest failure, after.left = c :: rest ∧
      Cut.first after.place after.depth c rest = .error failure) := by
  obtain ⟨place, depth, left⟩ := scan
  -- A piece takes more than one character, so the induction is on the length of what is left.
  induction length : left.length using Nat.strongRecOn generalizing left place depth with
  | ind size ih =>
      cases left with
      | nil => exact ⟨[], _, .done _, .inl rfl⟩
      | cons c rest =>
          cases action : Cut.first place depth c rest with
          | error failure => exact ⟨[], _, .done _, .inr ⟨c, rest, failure, rfl, action⟩⟩
          | ok cut =>
              have shorter : (rest.drop cut.more).length < size := by
                rw [← length, List.length_drop, List.length_cons]
                omega
              obtain ⟨found, after, later, stopped⟩ := ih _ shorter _ _ _ rfl
              exact ⟨_, after, .piece action later, stopped⟩

theorem cuts_of_pieces {place : Location} {depth : Nat} {text : List Char}
    (done : pieces place depth text = .ok found) :
    ∃ behind deep, Cuts ⟨place, depth, text⟩ found ⟨behind, deep, []⟩ := by
  obtain ⟨cutOff, ⟨behind, deep, left⟩, cuts, stopped⟩ := exists_cuts ⟨place, depth, text⟩
  have whole := cuts.pieces_eq
  rw [done] at whole
  rcases stopped with rfl | ⟨c, rest, failure, rfl, failed⟩
  · rw [pieces_nil] at whole
    obtain rfl : found = cutOff := by simpa [Except.map] using whole
    exact ⟨behind, deep, cuts⟩
  · simp only [pieces_cons, failed, bind, Except.bind, Except.map] at whole
    cases whole

theorem Cuts.left_eq (cuts : scan.Cuts found after) :
    scan.left = found.flatMap (·.spelling) ++ after.left := by
  induction cuts with
  | done => rfl
  | piece _ _ ih => simp [← ih]

theorem Cuts.place_eq (cuts : scan.Cuts found after) :
    after.place = scan.place.afterText (found.flatMap (·.spelling)) := by
  induction cuts with
  | done => rfl
  | piece _ _ ih => rw [ih, List.flatMap_cons, ← Location.afterText_append]

theorem Cuts.depth_eq (cuts : scan.Cuts found after) :
    after.depth = (Token.lexemes (found.filterMap Piece.token?)).foldl Lexeme.depthAfter scan.depth := by
  induction cuts with
  | done => rfl
  | piece first _ ih =>
      rw [ih]
      rcases first_depth first with ⟨silent, same⟩ | ⟨lexeme, said, -, counted⟩
      · simp only [List.filterMap_cons, Piece.token?, silent, Option.map_none, same]
      · simp only [List.filterMap_cons, Piece.token?, said, Option.map_some, counted]
        rfl

theorem Cuts.split {first second : List Piece} (cuts : scan.Cuts (first ++ second) after) :
    ∃ between : Scan, scan.Cuts first between ∧ between.Cuts second after := by
  induction first generalizing scan with
  | nil => exact ⟨scan, .done scan, cuts⟩
  | cons piece rest ih =>
      cases cuts with
      | piece cut later =>
          obtain ⟨between, front, back⟩ := ih later
          exact ⟨between, .piece cut front, back⟩

theorem Cuts.done_or_spelled (cuts : scan.Cuts found after) :
    found = [] ∧ scan = after ∨ ∃ c rest, found.flatMap (·.spelling) = c :: rest := by
  cases cuts with
  | done => exact .inl ⟨rfl, rfl⟩
  | piece => exact .inr ⟨_, _, rfl⟩

/-- What stands behind a stop may be exchanged when the last piece in front of it is still cut
off. -/
theorem Cuts.exchanged (cuts : scan.Cuts found after) {other : List Char}
    (last : ∀ {place depth c inside cut},
      found.getLast? = some ⟨place, c :: inside, cut.lexeme⟩ →
      Cut.first place depth c (inside ++ after.left) = .ok cut → cut.more = inside.length →
        Cut.first place depth c (inside ++ other) = .ok cut) :
    Cuts { scan with left := found.flatMap (·.spelling) ++ other } found
      { after with left := other } := by
  induction cuts with
  | done => exact .done _
  | @piece place depth c rest cut found after first later ih =>
      have behind : rest.drop cut.more = found.flatMap (·.spelling) ++ after.left := later.left_eq
      have whole : cut.more = (rest.take cut.more).length := by
        rw [List.length_take, Nat.min_eq_left (Cut.more_le first)]
      have front : rest.take cut.more ++ (found.flatMap (·.spelling) ++ after.left) = rest := by
        rw [← behind, List.take_append_drop]
      rw [← front] at first
      -- The next piece keeps its first character; only behind the last one is another text.
      have still : Cut.first place depth c
          (rest.take cut.more ++ (found.flatMap (·.spelling) ++ other)) = .ok cut := by
        rcases later.done_or_spelled with ⟨rfl, rfl⟩ | ⟨x, tail, spelled⟩
        · exact last rfl first whole
        · rw [spelled] at first ⊢
          exact Cut.first_of_sameLook first whole fun y head => .inl head
      have cuts := Cuts.piece still (by
        rw [List.drop_left' whole.symm, List.take_left' whole.symm]
        refine ih fun is => last ?_
        rw [List.getLast?_cons, is]
        rfl)
      rw [List.take_left' whole.symm] at cuts
      rwa [List.flatMap_cons, List.cons_append, List.cons_append, List.append_assoc]

theorem Cuts.of_sameLook (cuts : scan.Cuts found after) {other : List Char}
    (alike : SameLook after.left other) :
    Cuts { scan with left := found.flatMap (·.spelling) ++ other } found
      { after with left := other } :=
  cuts.exchanged fun _ done whole => Cut.first_of_sameLook done whole alike

/-- Wherever a text stands, the lexer says of it what it says of its pieces, and of what is left. -/
theorem Cuts.tells (cuts : scan.Cuts found after) {lexemes : List Lexeme}
    (later : Says after.depth after.left lexemes) :
    Says scan.depth scan.left (Token.lexemes (found.filterMap Piece.token?) ++ lexemes) := by
  induction cuts with
  | done => exact later
  | @piece place depth c rest cut found after first _ ih =>
      have whole := Says.cons cut (Cut.isFirst_of_first first).first (ih later)
      cases said : cut.lexeme with
      | none =>
          rw [said] at whole
          simp only [List.filterMap_cons, Piece.token?, Option.map_none]
          exact whole
      | some lexeme =>
          rw [said] at whole
          simp only [List.filterMap_cons, Piece.token?, Option.map_some]
          exact whole

end Scan

end ShellLisp
