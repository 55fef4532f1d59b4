import ShellLisp.Proofs.Reading.Interchange

/-!
# Two texts read side by side

The parser reads two rows of tokens that write expressions which may be interchanged: its two states
hold the same forms, with items that may be interchanged one by one. In one of the open calls, or on
the line, the two rows may also differ in the head of a group; while nothing stands behind that
head, something has to come before the row ends.
-/

namespace ShellLisp
open ShellLisp.Expr (Interchangeable)

/-- Two results that both are failures, or of which the values are related. -/
inductive Agree {α β : Type} (related : α → β → Prop) : Except Failure α → Except Failure β → Prop
  | ok {a : α} {b : β} (same : related a b) : Agree related (.ok a) (.ok b)
  | error (failure other : Failure) : Agree related (.error failure) (.error other)

theorem Agree.bind {α β γ δ : Type} {related : α → β → Prop} {next : γ → δ → Prop}
    {first : Except Failure α} {second : Except Failure β} (agree : Agree related first second)
    {further : α → Except Failure γ} {beside : β → Except Failure δ}
    (later : ∀ a b, related a b → Agree next (further a) (beside b)) :
    Agree next (first >>= further) (second >>= beside) := by
  cases agree with
  | ok same => exact later _ _ same
  | error failure other => exact .error failure other

/-! ## Rows -/

/-- Rows of a call or a line, the nearest item first, that differ in the head of a group: with
something behind that head, or with nothing behind it yet. -/
structure HeadRows where
  settled : List Expr → List Expr → Prop
  pending : List Expr → List Expr → Prop
  grow : ∀ {first second a b}, settled first second → Interchangeable a b →
    settled (a :: first) (b :: second)
  fill : ∀ {first second a b}, pending first second → Interchangeable a b → a.isBareWord = false →
    settled (a :: first) (b :: second)
  long : ∀ {first second}, settled first second → 2 ≤ first.length ∧ 2 ≤ second.length
  calls : ∀ {first second}, settled first second → ∀ p q,
    Interchangeable (.call p first.reverse) (.call q second.reverse)

def HeadRows.none : HeadRows where
  settled _ _ := False
  pending _ _ := False
  grow := nofun
  fill := nofun
  long := nofun
  calls := nofun

namespace HeadRows
variable (heads : HeadRows)

/-- Two rows to which the next token may add an item of any kind, or which it may end. -/
def Closing (call : Prop) (first second : List Expr) : Prop :=
  List.Forall₂ Interchangeable first second ∨ call ∧ heads.settled first second

def Waiting (call : Prop) (first second : List Expr) : Prop :=
  heads.Closing call first second ∨ call ∧ heads.pending first second

variable {heads} {call : Prop} {first second : List Expr} {a b : Expr}

theorem Closing.add (rows : heads.Closing call first second) (alike : Interchangeable a b) :
    heads.Closing call (a :: first) (b :: second) :=
  rows.imp (.cons alike) fun ⟨is, settled⟩ => ⟨is, heads.grow settled alike⟩

theorem Waiting.add (rows : heads.Waiting call first second) (alike : Interchangeable a b)
    (form : a.isBareWord = false) : heads.Closing call (a :: first) (b :: second) := by
  rcases rows with rows | ⟨is, pending⟩
  · exact rows.add alike
  · exact .inr ⟨is, heads.fill pending alike form⟩

theorem Closing.nil_iff (rows : heads.Closing call first second) : first = [] ↔ second = [] := by
  rcases rows with rows | ⟨-, settled⟩
  · exact Expr.nil_iff_of_forall₂ rows
  · obtain ⟨left, right⟩ := heads.long settled
    constructor <;> (rintro rfl; simp at left right)

end HeadRows

/-! ## Statements and forms -/

theorem isBareWord_of_interchangeable {a b : Expr} (alike : Interchangeable a b) :
    a.isBareWord = b.isBareWord := by
  rw [Expr.isBareWord, Expr.isBareWord, alike.word]

theorem statement_of_items {first second : List Expr}
    (each : List.Forall₂ Interchangeable first second) :
    Interchangeable (Expr.statement first) (Expr.statement second) := by
  match each with
  | .nil => exact Expr.interchangeable_calls _ _ .nil
  | .cons (a := a) (b := b) head .nil =>
      rw [Expr.statement, Expr.statement, isBareWord_of_interchangeable head]
      split
      · exact Expr.interchangeable_calls _ _ (.cons head .nil)
      · exact head
  | .cons head (.cons next rest) =>
      exact Expr.interchangeable_calls _ _ (.cons head (.cons next rest))

theorem statement_of_long {row : List Expr} (long : 2 ≤ row.length) :
    Expr.statement row = .call ((row.head?.map Expr.place).getD .nowhere) row := by
  match row with
  | [] => cases long
  | [e] => simp at long
  | first :: second :: rest => rfl

/-- Two lines, the nearest item first, that are statements which may be interchanged. -/
structure LineBeside (first second : List Expr) : Prop where
  filled : first = [] ↔ second = []
  statement : Interchangeable (Expr.statement first.reverse) (Expr.statement second.reverse)

theorem LineBeside.refl (line : List Expr) : LineBeside line line := ⟨Iff.rfl, .refl _⟩

theorem program_of_statements {first second : List Expr}
    (each : List.Forall₂ Interchangeable first second) :
    Option.Rel Interchangeable (Expr.program first) (Expr.program second) := by
  match each with
  | .nil => exact .none
  | .cons head .nil => exact .some head
  | .cons head (.cons next rest) =>
      exact .some (Expr.interchangeable_calls _ _ (.cons (.refl _) (.cons head (.cons next rest))))

namespace HeadRows
variable {heads : HeadRows} {call : Prop} {first second : List Expr}

theorem Closing.line (rows : heads.Closing call first second) : LineBeside first second := by
  refine ⟨rows.nil_iff, ?_⟩
  rcases rows with rows | ⟨-, settled⟩
  · exact statement_of_items (List.forall₂_reverse_iff.mpr rows)
  · obtain ⟨left, right⟩ := heads.long settled
    rw [statement_of_long (by simpa using left), statement_of_long (by simpa using right)]
    exact heads.calls settled _ _

theorem Closing.close {opener : Char} {place other : Location}
    (rows : heads.Closing (opener = '(') first second) :
    Agree (fun a b => Interchangeable a b ∧ a.isBareWord = false)
      (OpenForm.close ⟨opener, place, first⟩) (OpenForm.close ⟨opener, other, second⟩) := by
  unfold OpenForm.close
  by_cases call : opener = '('
  · simp only [if_pos call, List.isEmpty_reverse]
    cases empty : first.isEmpty with
    | true =>
        have nothing := rows.nil_iff.mp (List.isEmpty_iff.mp empty)
        simp only [nothing, List.isEmpty_nil, if_true]
        exact .error _ _
    | false =>
        have some : second.isEmpty = false := by
          rw [List.isEmpty_eq_false_iff] at empty ⊢
          exact mt rows.nil_iff.mpr empty
        simp only [some, Bool.false_eq_true, if_false]
        refine .ok ⟨?_, rfl⟩
        rcases rows with rows | ⟨-, settled⟩
        · exact Expr.interchangeable_calls _ _ (List.forall₂_reverse_iff.mpr rows)
        · exact heads.calls settled _ _
  · simp only [if_neg call]
    have rows : List.Forall₂ Interchangeable first second :=
      rows.resolve_right fun ⟨is, _⟩ => call is
    have reversed := List.forall₂_reverse_iff.mpr rows
    split
    · exact .ok ⟨Expr.interchangeable_arrays _ _ reversed, rfl⟩
    · rw [List.length_reverse, List.length_reverse, rows.length_eq]
      split
      · exact .error _ _
      · exact .ok ⟨Expr.interchangeable_maps _ _ reversed, rfl⟩

end HeadRows

/-! ## States -/

namespace Parsing

/-- The items of the innermost open form, or of the line when no form is open. -/
def row (state : Parsing) : List Expr :=
  match state.forms with
  | [] => state.line
  | form :: _ => form.items

def InCall (state : Parsing) : Prop := ∀ form ∈ state.forms.head?, form.opener = '('

variable (heads : HeadRows)

structure FormBeside (form other : OpenForm) : Prop where
  opener : form.opener = other.opener
  row : heads.Waiting (form.opener = '(') form.items other.items

/-- Two states that agree but for the rows that are read. -/
inductive Around : Parsing → Parsing → Prop
  | outside {line other : List Expr} {lines others : List (List Expr)}
      (earlier : List.Forall₂ LineBeside lines others) :
      Around ⟨[], line, lines⟩ ⟨[], other, others⟩
  | inside {form otherForm : OpenForm} {outer around : List OpenForm} {line other : List Expr}
      {lines others : List (List Expr)} (opener : form.opener = otherForm.opener)
      (forms : List.Forall₂ (FormBeside heads) outer around)
      (waiting : heads.Waiting True line other)
      (earlier : List.Forall₂ LineBeside lines others) :
      Around ⟨form :: outer, line, lines⟩ ⟨otherForm :: around, other, others⟩

structure Beside (state other : Parsing) : Prop where
  around : Around heads state other
  row : heads.Closing state.InCall state.row other.row

variable {heads} {state other : Parsing}

theorem row_add (state : Parsing) (e : Expr) : (state.add e).row = e :: state.row := by
  obtain ⟨forms, line, lines⟩ := state
  cases forms <;> rfl

theorem inCall_add (state : Parsing) (e : Expr) : (state.add e).InCall = state.InCall := by
  obtain ⟨forms, line, lines⟩ := state
  cases forms with
  | nil => rfl
  | cons form outer => simp [InCall, add]

theorem waiting_refl (call : Prop) (row : List Expr) : heads.Waiting call row row :=
  .inl (.inl (Expr.forall₂_refl Interchangeable.refl row))

theorem Around.refl (state : Parsing) : Around heads state state := by
  obtain ⟨forms, line, lines⟩ := state
  have earlier := Expr.forall₂_refl LineBeside.refl lines
  cases forms with
  | nil => exact .outside earlier
  | cons form outer =>
      exact .inside rfl (Expr.forall₂_refl (fun form => ⟨rfl, waiting_refl _ _⟩) outer)
        (waiting_refl _ _) earlier

theorem Around.add (around : Around heads state other) (a b : Expr) :
    Around heads (state.add a) (other.add b) := by
  cases around with
  | outside earlier => exact .outside earlier
  | inside opener forms waiting earlier => exact .inside opener forms waiting earlier

theorem Around.length_eq (around : Around heads state other) :
    state.forms.length = other.forms.length := by
  cases around with
  | outside => rfl
  | inside _ forms => simp [forms.length_eq]

theorem Beside.add (beside : Beside heads state other) {a b : Expr} (alike : Interchangeable a b) :
    Beside heads (state.add a) (other.add b) := by
  refine ⟨beside.around.add a b, ?_⟩
  rw [row_add, row_add, inCall_add]
  exact beside.row.add alike

theorem Around.addForm (around : Around heads state other)
    (row : heads.Waiting state.InCall state.row other.row) {a b : Expr}
    (alike : Interchangeable a b) (form : a.isBareWord = false) :
    Beside heads (state.add a) (other.add b) := by
  refine ⟨around.add a b, ?_⟩
  rw [row_add, row_add, inCall_add]
  exact row.add alike form

/-- An opening bracket starts new rows, and the rows around it wait for the form. -/
theorem Around.opened (around : Around heads state other)
    (row : heads.Waiting state.InCall state.row other.row) (opener : Char) (p q : Location) :
    Beside heads { state with forms := ⟨opener, p, []⟩ :: state.forms }
      { other with forms := ⟨opener, q, []⟩ :: other.forms } := by
  refine ⟨?_, .inl .nil⟩
  cases around with
  | outside earlier =>
      refine .inside rfl .nil ?_ earlier
      simpa [InCall, Parsing.row] using row
  | inside opener forms waiting earlier =>
      refine .inside rfl (.cons ⟨opener, ?_⟩ forms) waiting earlier
      simpa [InCall, Parsing.row] using row

theorem Around.closed {form otherForm : OpenForm} {outer around : List OpenForm}
    {line otherLine : List Expr} {lines others : List (List Expr)}
    (states : Around heads ⟨form :: outer, line, lines⟩ ⟨otherForm :: around, otherLine, others⟩) :
    Around heads ⟨outer, line, lines⟩ ⟨around, otherLine, others⟩ ∧
      heads.Waiting (InCall ⟨outer, line, lines⟩) (row ⟨outer, line, lines⟩)
        (row ⟨around, otherLine, others⟩) := by
  obtain ⟨⟩ | ⟨opener, forms, waiting, earlier⟩ := states
  cases forms with
  | nil => exact ⟨.outside earlier, by simpa [InCall, row] using waiting⟩
  | cons head rest =>
      exact ⟨.inside head.opener rest waiting earlier, by simpa [InCall, row] using head.row⟩

/-! ## Steps -/

theorem Beside.bracket (beside : Beside heads state other) (p q : Location) (symbol : Char) :
    Agree (Beside heads) (state.bracket p symbol) (other.bracket q symbol) := by
  obtain ⟨around, row⟩ := beside
  unfold Parsing.bracket
  split
  · exact .ok (around.opened (.inl row) symbol p q)
  · cases around with
    | outside => exact .error _ _
    | @inside form otherForm outer others line otherLine lines otherLines opener forms waiting
        earlier =>
        obtain ⟨character, place, items⟩ := form
        obtain ⟨_, otherPlace, otherItems⟩ := otherForm
        obtain rfl : character = _ := opener
        dsimp only
        split
        · have closes : heads.Closing (character = '(') items otherItems := by
            simpa [InCall, Parsing.row] using row
          have states : Around heads ⟨⟨character, place, items⟩ :: outer, line, lines⟩
              ⟨⟨character, otherPlace, otherItems⟩ :: others, otherLine, otherLines⟩ :=
            .inside rfl forms waiting earlier
          obtain ⟨around, waits⟩ := states.closed
          have closed : Agree _ (OpenForm.close ⟨character, place, items⟩)
              (OpenForm.close ⟨character, otherPlace, otherItems⟩) := closes.close
          generalize OpenForm.close ⟨character, place, items⟩ = left at closed ⊢
          generalize OpenForm.close ⟨character, otherPlace, otherItems⟩ = right at closed ⊢
          cases closed with
          | ok same => exact .ok (around.addForm waits same.1 same.2)
          | error failure reason => exact .error _ _
        · exact .error _ _

theorem Beside.newline (beside : Beside heads state other) (p q : Location) :
    Agree (Beside heads) (state.newline p) (other.newline q) := by
  obtain ⟨around, row⟩ := beside
  cases around with
  | outside earlier => exact .ok ⟨.outside (.cons row.line earlier), .inl .nil⟩
  | inside => exact .error _ _

theorem Beside.step (beside : Beside heads state other) {token otherToken : Token}
    (same : token.lexeme = otherToken.lexeme) :
    Agree (Beside heads) (state.step token) (other.step otherToken) := by
  obtain ⟨lexeme, p⟩ := token
  obtain ⟨_, q⟩ := otherToken
  obtain rfl : lexeme = _ := same
  cases lexeme with
  | bracket symbol => exact beside.bracket p q symbol
  | newline => exact beside.newline p q
  | _ => exact .ok (beside.add (Expr.interchangeable_of_placeless rfl))

theorem Beside.stepWithin (beside : Beside heads state other) {token otherToken : Token}
    (same : token.lexeme = otherToken.lexeme) (limit : Nat) :
    Agree (Beside heads) (state.stepWithin limit token) (other.stepWithin limit otherToken) := by
  refine (beside.step same).bind fun after otherAfter beside => ?_
  rw [beside.around.length_eq]
  split
  · exact .error _ _
  · exact .ok beside

theorem Beside.foldlM (beside : Beside heads state other) {tokens others : List Token}
    (said : Token.lexemes tokens = Token.lexemes others) (limit : Nat) :
    Agree (Beside heads) (tokens.foldlM (Parsing.stepWithin limit) state)
      (others.foldlM (Parsing.stepWithin limit) other) := by
  induction tokens generalizing others state other with
  | nil =>
      rw [List.map_eq_nil_iff.mp said.symm]
      exact .ok beside
  | cons token rest ih =>
      obtain ⟨otherToken, otherRest, rfl, same, said⟩ := List.map_eq_cons_iff.mp said.symm
      rw [List.foldlM_cons, List.foldlM_cons]
      exact (beside.stepWithin same.symm limit).bind fun _ _ beside => ih beside said.symm

end Parsing

namespace Expr
open Parsing
variable {heads : HeadRows} {state other : Parsing}

theorem ofParsing_lines {line otherLine : List Expr} {lines others : List (List Expr)}
    (last : LineBeside line otherLine) (earlier : List.Forall₂ LineBeside lines others)
    (p q : Location) :
    Agree (Option.Rel Interchangeable) (ofParsing ⟨[], line, lines⟩ p)
      (ofParsing ⟨[], otherLine, others⟩ q) := by
  refine .ok (program_of_statements ?_)
  have reversed := List.forall₂_reverse_iff.mpr (List.Forall₂.cons last earlier)
  simp only [finishedLines]
  generalize (line :: lines).reverse = rows at reversed
  generalize (otherLine :: others).reverse = otherRows at reversed
  -- Empty lines are no statements, and they are empty in both.
  induction reversed with
  | nil => exact .nil
  | @cons row otherRow _ _ head _ ih =>
      rw [List.map_cons, List.map_cons]
      cases empty : row.isEmpty with
      | true =>
          have nothing := head.filled.mp (List.isEmpty_iff.mp empty)
          rw [List.filter_cons_of_neg (by simpa using empty),
            List.filter_cons_of_neg (by simp [nothing])]
          exact ih
      | false =>
          have some : otherRow.isEmpty = false := by
            rw [List.isEmpty_eq_false_iff] at empty ⊢
            exact mt head.filled.mpr empty
          rw [List.filter_cons_of_pos (by simpa using empty),
            List.filter_cons_of_pos (by simpa using some), List.map_cons, List.map_cons]
          exact .cons head.statement ih

theorem ofParsing_of_beside (beside : Beside heads state other) (p q : Location) :
    Agree (Option.Rel Interchangeable) (ofParsing state p) (ofParsing other q) := by
  obtain ⟨around, row⟩ := beside
  cases around with
  | outside earlier => exact ofParsing_lines row.line earlier p q
  | inside => exact .error _ _

/-- Behind states that agree, tokens that say the same give trees that may be interchanged. -/
theorem parse_of_beside (beside : Beside heads state other) {tokens others : List Token}
    (said : Token.lexemes tokens = Token.lexemes others) (limit : Nat) (p q : Location) :
    Agree (Option.Rel Interchangeable)
      (tokens.foldlM (Parsing.stepWithin limit) state >>= fun after => ofParsing after p)
      (others.foldlM (Parsing.stepWithin limit) other >>= fun after => ofParsing after q) :=
  (beside.foldlM said limit).bind fun _ _ beside => ofParsing_of_beside beside p q

end Expr

end ShellLisp
