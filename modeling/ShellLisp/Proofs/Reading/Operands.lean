import ShellLisp.Proofs.Reading.Occurrences

/-!
# Calls put together from texts

The text of an item -- a bracketed form, or a leaf that is no bare word -- as a part of the text of
a call. The item closes only brackets that it opened, so the lexer cuts it there as where it stands
by itself, with one more bracket open.
-/

namespace ShellLisp

/-! ## One more open bracket -/

def ClosesOpened : Nat → List Lexeme → Prop
  | _, [] => True
  | depth, lexeme :: rest =>
      (∀ symbol, lexeme = .bracket symbol → isOpening symbol = false → depth ≠ 0) ∧
        ClosesOpened (lexeme.depthAfter depth) rest

theorem Row.closesOpened {row : List Lexeme} {count : Nat} (is : Row row count) {depth : Nat}
    {rest : List Lexeme} (later : ClosesOpened depth rest) : ClosesOpened depth (row ++ rest) := by
  induction is generalizing depth rest with
  | nil => exact later
  | leaf noBracket _ _ ih =>
      refine ⟨?_, ?_⟩
      · rintro _ rfl
        exact absurd rfl noBracket
      · rw [depthAfter_of_kind noBracket]
        exact ih later
  | @form opener inside others held _ opening _ _ _ innerIh othersIh =>
      rw [List.cons_append, List.append_assoc, List.cons_append]
      have closes : ClosesOpened (depth + 1) (.bracket (closerOf opener) :: (others ++ rest)) := by
        refine ⟨fun _ _ _ => Nat.succ_ne_zero depth, ?_⟩
        rw [Lexeme.depthAfter, closerOf_not_opening]
        exact othersIh later
      refine ⟨?_, ?_⟩
      · rintro _ ⟨⟩ closing
        rw [opening] at closing
        cases closing
      · rw [Lexeme.depthAfter, if_pos opening]
        exact innerIh closes

theorem Row.foldl_depthAfter {row : List Lexeme} {count : Nat} (is : Row row count) (depth : Nat) :
    row.foldl Lexeme.depthAfter depth = depth := by
  induction is generalizing depth with
  | nil => rfl
  | leaf noBracket _ _ ih => rw [List.foldl_cons, depthAfter_of_kind noBracket, ih]
  | form opening _ _ _ innerIh othersIh =>
      rw [List.foldl_cons, List.foldl_append, innerIh, List.foldl_cons]
      simp only [Lexeme.depthAfter, opening, closerOf_not_opening, if_true, Bool.false_eq_true,
        if_false, Nat.add_sub_cancel]
      exact othersIh depth

theorem Cut.first_deeper {place : Location} {depth : Nat} {c : Char} {rest : List Char} {cut : Cut}
    (done : Cut.first place depth c rest = .ok cut)
    (noNewline : ∀ lexeme, cut.lexeme = some lexeme → lexeme.isNewline = false)
    (nested : isClosing c = true → depth ≠ 0) :
    Cut.first place (depth + 1) c rest = .ok { cut with depth := cut.depth + 1 } := by
  refine IsFirst.first ?_ place
  cases isFirst_of_first done with
  | newline is =>
      have inside : depth ≠ 0 := by
        rintro rfl
        exact absurd (noNewline .newline rfl) (by decide)
      have counted : IsFirst (depth + 1) c rest _ := .newline is
      rw [if_neg (Nat.succ_ne_zero depth)] at counted
      rwa [if_neg inside]
  | blank is other => exact .blank is other
  | comment is => exact .comment is
  | opening is => exact .opening is
  | closing is =>
      have counted : IsFirst (depth + 1) c rest _ := .closing is
      have same : depth + 1 - 1 = depth - 1 + 1 := by
        have inside := nested is
        omega
      rwa [same] at counted
  | quoted is read => exact .quoted is read
  | widePipe is wide => exact .widePipe is wide
  | pipe is narrow => exact .pipe is narrow
  | sequence is => exact .sequence is
  | word starts read => exact .word starts read

theorem lexeme_of_isClosing {place : Location} {depth : Nat} {c : Char} {rest : List Char}
    {cut : Cut} (done : Cut.first place depth c rest = .ok cut) (closing : isClosing c = true) :
    cut.lexeme = some (.bracket c) := by
  simp only [isClosing, Bool.or_eq_true, decide_eq_true_eq] at closing
  rcases closing with (rfl | rfl) | rfl
  all_goals
    obtain rfl : (⟨0, some (.bracket _), depth - 1⟩ : Cut) = cut := Except.ok.inj done
    rfl

namespace Scan
variable {scan after : Scan} {found : List Piece}

theorem Cuts.deeper (cuts : scan.Cuts found after)
    (noNewlines : ∀ lexeme ∈ Token.lexemes (found.filterMap Piece.token?), lexeme.isNewline = false)
    (nested : ClosesOpened scan.depth (Token.lexemes (found.filterMap Piece.token?))) :
    Cuts { scan with depth := scan.depth + 1 } found { after with depth := after.depth + 1 } := by
  induction cuts with
  | done => exact .done _
  | @piece place depth c rest cut found after first _ ih =>
      rcases first_depth first with ⟨silent, same⟩ | ⟨lexeme, said, -, counted⟩
      · simp only [List.filterMap_cons, Piece.token?, silent, Option.map_none] at noNewlines nested
        have deeper := Cut.first_deeper first (by simp [silent]) fun closing => by
          simp [lexeme_of_isClosing first closing] at silent
        have step := Cuts.piece deeper (ih noNewlines (same.symm ▸ nested))
        exact step
      · simp only [List.filterMap_cons, Piece.token?, said, Option.map_some] at noNewlines nested
        obtain ⟨noNewline, others⟩ := List.forall_mem_cons.mp noNewlines
        have deeper := Cut.first_deeper first (by simpa [said] using noNewline) fun closing => by
          have bracket := said.symm.trans (lexeme_of_isClosing first closing)
          exact nested.1 c (Option.some.inj bracket) (isOpening_of_isClosing closing)
        have step := Cuts.piece deeper (ih others (counted.symm ▸ nested.2))
        exact step

end Scan

/-! ## Items -/

/-- A source text that is one item and ends with it: a bracketed form, or a leaf that is no bare
word. -/
structure IsItem (source : String) (item : Expr) : Prop where
  parsed : Expr.ofSource source = .ok (some item)
  cut : ∃ found, pieces .start 0 source.toList = .ok found ∧
    Token.lexemes (found.filterMap Piece.token?) = item.lexemes ∧
    ∀ piece ∈ found.getLast?, piece.lexeme ≠ none

def SaysInside (text : String) (lexemes : List Lexeme) : Prop :=
  ∀ ⦃rest : List Char⦄ ⦃others : List Lexeme⦄, Ends rest → Says 1 rest others →
    Says 1 (text.toList ++ rest) (lexemes ++ others)

theorem saysInside_text {e : Expr} (spelled : e.Everywhere Expr.LeafSpelled) :
    SaysInside e.text e.lexemes := by
  intro rest others ends later
  rw [Expr.text, String.toList_ofList]
  exact Expr.says_chars spelled ends later

theorem saysInside_item {source : String} {item : Expr} (is : IsItem source item) :
    SaysInside source item.lexemes := by
  intro rest others ends later
  obtain ⟨parsed, found, done, said, spoken⟩ := is
  obtain ⟨behind, deep, cuts⟩ := Scan.cuts_of_pieces done
  have legible := (Expr.legible_of_ofSource parsed).1
  have row := Expr.row_lexemes fun node member => (legible node member).counted
  -- The brackets of the item are all closed, so the count comes back to where it was.
  obtain rfl : deep = 0 := by
    have counted := cuts.depth_eq
    rw [said, row.foldl_depthAfter] at counted
    exact counted
  have further : Scan.Cuts ⟨.start, 0, found.flatMap (·.spelling) ++ rest⟩ found
      ⟨behind, 0, rest⟩ := by
    refine cuts.exchanged fun last done whole => ?_
    refine Cut.first_of_look done whole fun x first => .inr (.inr ⟨?_, ?_⟩)
    · rintro rfl
      obtain rfl : (⟨_, none, _⟩ : Cut) = _ := Except.ok.inj done
      exact spoken _ last rfl
    · exact isWordBreak_of_ends (ends x first)
  have deeper := further.deeper (said.symm ▸ item.noNewline_lexemes) (by
    have nested : ClosesOpened 0 (item.lexemes ++ []) := row.closesOpened trivial
    rwa [List.append_nil, ← said] at nested)
  have whole := deeper.tells later
  have spelled : source.toList = found.flatMap (·.spelling) := by
    simpa using cuts.left_eq
  rw [said] at whole
  rw [spelled]
  exact whole

/-! ## Calls -/

def callText (parts : List String) : String := "(" ++ " ".intercalate parts ++ ")"

section
variable {parts otherParts : List String} {items others : List Expr}

theorem says_intercalate
    (each : List.Forall₂ (fun part item => SaysInside part item.lexemes) parts items)
    {rest : List Char} {lexemes : List Lexeme} (ends : Ends rest) (later : Says 1 rest lexemes) :
    Says 1 ([' '].intercalate (parts.map String.toList) ++ rest)
      (Expr.lexemesAll items ++ lexemes) := by
  induction each with
  | nil => exact later
  | @cons part item behind more here there ih =>
      cases behind with
      | nil =>
          cases there
          simpa [Expr.lexemesAll] using here ends later
      | cons next others =>
          rw [Expr.lexemesAll, List.map_cons, List.map_cons, List.intercalate_cons_cons,
            List.append_assoc, List.append_assoc, List.append_assoc]
          refine here ?_ (Says.space ih)
          rintro c ⟨⟩
          exact .inl rfl

theorem says_callText
    (each : List.Forall₂ (fun part item => SaysInside part item.lexemes) parts items) :
    Says 0 (callText parts).toList (Expr.call .nowhere items).lexemes := by
  have closes : Ends [')'] := by
    rintro c ⟨⟩
    exact .inr rfl
  have inside := says_intercalate each closes (Says.closing rfl (.nil 0))
  have opens : isOpening '(' = true := rfl
  have whole := Says.opening opens inside
  simpa [callText, String.toList_append, String.toList_intercalate, Expr.lexemes] using whole

structure Writes (parts : List String) (items : List Expr) : Prop where
  filled : items ≠ []
  legible : ∀ e ∈ items, e.Everywhere Expr.Legible
  each : List.Forall₂ (fun part item => SaysInside part item.lexemes) parts items

theorem ofSource_callText (writes : Writes parts items) :
    if Expr.nestingAll items < depthLimits.brackets then
      ∃ found, Expr.ofSource (callText parts) = .ok (some found) ∧
        found.placeless = (Expr.call .nowhere items).shown
    else Expr.ofSource (callText parts) = .error .tooDeep := by
  obtain ⟨tokens, lexed, said⟩ :=
    lex_of_says (says_callText writes.each) (Expr.call .nowhere items).noNewline_lexemes
  rw [String.ofList_toList] at lexed
  have all : (Expr.call .nowhere items).Everywhere Expr.Legible :=
    Expr.legible_call writes.filled writes.legible
  split
  · rename_i shallow
    exact Expr.ofSource_of_lexemes lexed said all rfl shallow
  · rename_i deep
    exact Expr.ofSource_of_lexemes_of_deep lexed said all
      (Nat.lt_succ_of_le (Nat.le_of_not_lt deep))

end

end ShellLisp
