import ShellLisp.Proofs.Reading.Brackets

/-!
# Rows of expressions

Which brackets and leaves make up a row of expressions, said without the machine that reads them,
and what the machine does with such a row. The parser keeps the forms that are open; up to the first
mismatch it counts brackets as the lexer does, which is why it meets no newline inside a form.
-/

namespace ShellLisp

/-! ## Rows of expressions -/

/-- How many expressions a form may hold: a call at least one, a map an even number of them. -/
def Admits (opener : Char) (count : Nat) : Prop :=
  (opener = '(' → count ≠ 0) ∧ (opener = '{' → count % 2 = 0)

/-- Brackets and leaves that make up so many expressions. -/
inductive Row : List Lexeme → Nat → Prop
  | nil : Row [] 0
  | leaf {lexeme : Lexeme} {rest : List Lexeme} {count : Nat} (noBracket : lexeme.kind ≠ .symbol)
      (noNewline : lexeme.kind ≠ .newline) (others : Row rest count) :
      Row (lexeme :: rest) (count + 1)
  | form {opener : Char} {inside rest : List Lexeme} {held count : Nat}
      (opening : isOpening opener = true) (inner : Row inside held) (admits : Admits opener held)
      (others : Row rest count) :
      Row (.bracket opener :: (inside ++ .bracket (closerOf opener) :: rest)) (count + 1)

theorem Row.append {first second : List Lexeme} {n m : Nat} (left : Row first n)
    (right : Row second m) : Row (first ++ second) (n + m) := by
  induction left with
  | nil => simpa using right
  | @leaf lexeme rest count noBracket noNewline _ ih =>
      rw [show count + 1 + m = count + m + 1 by omega]
      exact .leaf noBracket noNewline ih
  | @form opener inside rest held count opening inner admits _ _ ih =>
      rw [show count + 1 + m = count + m + 1 by omega, List.cons_append, List.append_assoc,
        List.cons_append]
      exact .form opening inner admits ih

theorem row_lexemesAll {items : List Expr} (each : ∀ e ∈ items, Row e.lexemes 1) :
    Row (Expr.lexemesAll items) items.length := by
  induction items with
  | nil => exact .nil
  | cons e rest ih =>
      rw [Expr.lexemesAll, List.length_cons, Nat.add_comm]
      exact (each e (by simp)).append (ih fun x member => each x (by simp [member]))

/-! ## One step of the parser -/

theorem closerOf_not_opening (opener : Char) : isOpening (closerOf opener) = false := by
  unfold closerOf
  split
  · decide
  · split <;> decide

theorem isOpening_iff {c : Char} : isOpening c = true ↔ c = '(' ∨ c = '[' ∨ c = '{' := by
  simp [isOpening, or_assoc]

/-- Why text is no program of the grammar. -/
inductive Ungrammatical : Cause → Prop
  | emptyCall : Ungrammatical .emptyCall
  | unevenMap : Ungrammatical .unevenMap
  | unexpected (symbol : Char) : Ungrammatical (.unexpected symbol)
  | unterminatedForm (closer : Char) : Ungrammatical (.unterminatedForm closer)

namespace Expr

/-- The tree that a form with an opening bracket is. -/
def ofForm (opener : Char) (place : Location) (body : List Expr) : Expr :=
  if opener = '(' then .call place body
  else if opener = '[' then .array place body
  else .map place body

theorem lexemes_ofForm {opener : Char} (opening : isOpening opener = true) (place : Location)
    (body : List Expr) : (ofForm opener place body).lexemes =
      .bracket opener :: (lexemesAll body ++ [.bracket (closerOf opener)]) := by
  rcases isOpening_iff.mp opening with rfl | rfl | rfl <;> rfl

end Expr

namespace OpenForm

def written (form : OpenForm) : List Lexeme :=
  .bracket form.opener :: Expr.lexemesAll form.items.reverse

theorem close_of_admits (form : OpenForm) (opening : isOpening form.opener = true)
    (admits : Admits form.opener form.items.length) :
    form.close = .ok (.ofForm form.opener form.place form.items.reverse) := by
  obtain ⟨opener, place, items⟩ := form
  obtain ⟨filled, even⟩ := admits
  dsimp only at opening filled even ⊢
  rcases isOpening_iff.mp opening with rfl | rfl | rfl
  · have some := filled rfl
    cases items with
    | nil => exact absurd rfl some
    | cons => simp [close, Expr.ofForm]
  · rfl
  · simp [close, Expr.ofForm, even rfl]

theorem admits_of_close {form : OpenForm} {e : Expr} (done : form.close = .ok e) :
    Admits form.opener form.items.length := by
  obtain ⟨opener, place, items⟩ := form
  unfold close at done
  dsimp only at done ⊢
  constructor
  · rintro rfl
    intro empty
    rw [List.length_eq_zero_iff.mp empty] at done
    cases done
  · rintro rfl
    by_contra odd
    have odd : items.reverse.length % 2 = 1 := by
      rw [List.length_reverse]
      omega
    rw [if_neg (by decide), if_neg (by decide), if_pos odd] at done
    cases done

theorem ungrammatical_of_close {form : OpenForm} {failure : Failure}
    (failed : form.close = .error failure) :
    ∃ place cause, failure = .at place cause ∧ Ungrammatical cause := by
  unfold close at failed
  dsimp only at failed
  split at failed
  · split at failed
    · cases failed
      exact ⟨_, _, rfl, .emptyCall⟩
    · cases failed
  · split at failed
    · cases failed
    · split at failed
      · cases failed
        exact ⟨_, _, rfl, .unevenMap⟩
      · cases failed

end OpenForm

theorem leaf?_of_kind {lexeme : Lexeme} (noBracket : lexeme.kind ≠ .symbol)
    (noNewline : lexeme.kind ≠ .newline) (place : Location) : ∃ e, lexeme.leaf? place = some e := by
  cases lexeme with
  | bracket symbol => exact absurd rfl noBracket
  | newline => exact absurd rfl noNewline
  | _ => exact ⟨_, rfl⟩

theorem lexemes_of_leaf? {lexeme : Lexeme} {place : Location} {e : Expr}
    (leaf : lexeme.leaf? place = some e) : e.lexemes = [lexeme] := by
  cases lexeme <;> cases leaf <;> rfl

theorem everywhere_of_leaf? {p : Expr → Prop} {lexeme : Lexeme} {place : Location} {e : Expr}
    (leaf : lexeme.leaf? place = some e) (here : p e) : e.Everywhere p := by
  cases lexeme <;> cases leaf <;>
    first | exact Expr.everywhere_value.mpr here | exact Expr.everywhere_variable.mpr here

namespace Parsing

def written (state : Parsing) : List Lexeme :=
  Expr.lexemesAll (state.lines.reverse.flatMap List.reverse) ++
    Expr.lexemesAll state.line.reverse ++ state.forms.reverse.flatMap OpenForm.written

def addAll (state : Parsing) (items : List Expr) : Parsing := items.foldl add state

theorem written_add (state : Parsing) (e : Expr) :
    (state.add e).written = state.written ++ e.lexemes := by
  obtain ⟨forms, line, lines⟩ := state
  cases forms with
  | nil => simp [add, written, Expr.lexemesAll_append, Expr.lexemesAll]
  | cons form outer =>
      simp [add, written, OpenForm.written, Expr.lexemesAll_append, Expr.lexemesAll]

theorem forms_length_add (state : Parsing) (e : Expr) :
    (state.add e).forms.length = state.forms.length := by
  obtain ⟨forms, line, lines⟩ := state
  cases forms <;> rfl

/-- What is true of the parser whatever it has read: forms have opening brackets, and all
expressions have a property. -/
structure Formed (p : Expr → Prop) (state : Parsing) : Prop where
  openers : ∀ form ∈ state.forms, isOpening form.opener = true
  items : ∀ form ∈ state.forms, ∀ e ∈ form.items, p e
  line : ∀ e ∈ state.line, p e
  lines : ∀ line ∈ state.lines, ∀ e ∈ line, p e

def KeptByForms (p : Expr → Prop) : Prop :=
  ∀ opener place body, isOpening opener = true → Admits opener body.length →
    (∀ e ∈ body, p e) → p (.ofForm opener place body)

def HeldByLeaves (p : Expr → Prop) (tokens : List Token) : Prop :=
  ∀ token ∈ tokens, ∀ e, token.lexeme.leaf? token.place = some e → p e

variable {p : Expr → Prop}

theorem heldByLeaves_cons {token : Token} {rest : List Token} :
    HeldByLeaves p (token :: rest) ↔ HeldByLeaves p [token] ∧ HeldByLeaves p rest := by
  simp [HeldByLeaves]

theorem Formed.start : Formed p .start := ⟨nofun, nofun, nofun, nofun⟩

theorem Formed.add {state : Parsing} (formed : Formed p state) {e : Expr} (has : p e) :
    Formed p (state.add e) := by
  obtain ⟨forms, line, lines⟩ := state
  obtain ⟨openers, items, inLine, inLines⟩ := formed
  cases forms with
  | nil => exact ⟨openers, items, List.forall_mem_cons.mpr ⟨has, inLine⟩, inLines⟩
  | cons form outer =>
      obtain ⟨opening, further⟩ := List.forall_mem_cons.mp openers
      obtain ⟨held, others⟩ := List.forall_mem_cons.mp items
      exact ⟨List.forall_mem_cons.mpr ⟨opening, further⟩,
        List.forall_mem_cons.mpr ⟨List.forall_mem_cons.mpr ⟨has, held⟩, others⟩, inLine, inLines⟩

theorem step_leaf {token : Token} (noBracket : token.lexeme.kind ≠ .symbol)
    (noNewline : token.lexeme.kind ≠ .newline) :
    ∃ e, token.lexeme.leaf? token.place = some e ∧
      ∀ state : Parsing, state.step token = .ok (state.add e) := by
  obtain ⟨lexeme, place⟩ := token
  obtain ⟨e, leaf⟩ := leaf?_of_kind noBracket noNewline place
  refine ⟨e, leaf, fun state => ?_⟩
  unfold step
  split
  · rename_i symbol same
    exact absurd (congrArg Lexeme.kind same) noBracket
  · rename_i same
    exact absurd (congrArg Lexeme.kind same) noNewline
  · rw [leaf]

theorem step_opening (state : Parsing) {opener : Char} (opening : isOpening opener = true)
    (place : Location) :
    state.step ⟨.bracket opener, place⟩ =
      .ok { state with forms := ⟨opener, place, []⟩ :: state.forms } := by
  show state.bracket place opener = _
  rw [bracket, if_pos (isOpening_iff.mp opening)]

theorem step_closing (state : Parsing) {form : OpenForm} {outer : List OpenForm}
    (innermost : state.forms = form :: outer) (place : Location) :
    state.step ⟨.bracket (closerOf form.opener), place⟩ =
      form.close.map fun e => ({ state with forms := outer }).add e := by
  have closing := closerOf_not_opening form.opener
  show state.bracket place (closerOf form.opener) = _
  rw [bracket, if_neg fun opening => by simp [isOpening_iff.mpr opening] at closing, innermost]
  simp

theorem closing_outcome (forms : KeptByForms p) {state : Parsing} (formed : Formed p state)
    {form : OpenForm} {outer : List OpenForm} (innermost : state.forms = form :: outer)
    (place : Location) :
    match state.step ⟨.bracket (closerOf form.opener), place⟩ with
    | .ok after => Formed p after ∧
        after.written = state.written ++ [.bracket (closerOf form.opener)] ∧
        after.forms.length = outer.length
    | .error failure => ∃ place cause, failure = .at place cause ∧ Ungrammatical cause := by
  rw [step_closing state innermost place]
  obtain ⟨_, line, lines⟩ := state
  cases innermost
  cases action : form.close with
  | error failure => exact form.ungrammatical_of_close action
  | ok e =>
      obtain ⟨isOpener, furtherOpeners⟩ := List.forall_mem_cons.mp formed.openers
      obtain ⟨held, furtherItems⟩ := List.forall_mem_cons.mp formed.items
      have admits := OpenForm.admits_of_close action
      rw [form.close_of_admits isOpener admits] at action
      cases action
      have outerFormed : Formed p ⟨outer, line, lines⟩ :=
        ⟨furtherOpeners, furtherItems, formed.line, formed.lines⟩
      have has : p (.ofForm form.opener form.place form.items.reverse) :=
        forms _ _ _ isOpener (by simpa using admits) (by simpa using held)
      refine ⟨outerFormed.add has, ?_, forms_length_add _ _⟩
      rw [written_add, Expr.lexemes_ofForm isOpener]
      simp [written, OpenForm.written]

/-- What a step does, and why it fails: a bracket that closes no form or the wrong one, or a form
that may not be closed. -/
theorem step_outcome (forms : KeptByForms p) {state : Parsing} (formed : Formed p state)
    {token : Token} (leaves : HeldByLeaves p [token])
    (outside : token.lexeme.isNewline = true → state.forms.length = 0) :
    match state.step token with
    | .ok after => Formed p after ∧
        after.written = state.written ++ Token.spoken [token] ∧
        after.forms.length = token.lexeme.depthAfter state.forms.length
    | .error failure => ∃ place cause, failure = .at place cause ∧ Ungrammatical cause := by
  have asLeaf := @step_leaf token
  obtain ⟨lexeme, place⟩ := token
  cases lexeme with
  | newline =>
      obtain ⟨forms, line, lines⟩ := state
      have none : forms = [] := List.length_eq_zero_iff.mp (outside rfl)
      subst none
      refine ⟨⟨formed.openers, formed.items, List.forall_mem_nil _,
        List.forall_mem_cons.mpr ⟨formed.line, formed.lines⟩⟩, ?_, rfl⟩
      simp [written, Token.spoken, Token.lexemes, Lexeme.isNewline, Expr.lexemesAll_append,
        Expr.lexemesAll]
  | bracket symbol =>
      by_cases opening : isOpening symbol = true
      · rw [step_opening state opening]
        refine ⟨⟨List.forall_mem_cons.mpr ⟨opening, formed.openers⟩,
          List.forall_mem_cons.mpr ⟨List.forall_mem_nil _, formed.items⟩, formed.line, formed.lines⟩, ?_, ?_⟩
        · simp [written, OpenForm.written, Token.spoken, Token.lexemes, Lexeme.isNewline,
            Expr.lexemesAll]
        · simp [Lexeme.depthAfter, opening]
      -- Of the closing brackets only the one that the innermost form waits for is no failure.
      · have closes : state.step ⟨.bracket symbol, place⟩ = state.bracket place symbol := rfl
        rw [bracket, if_neg fun is => opening (isOpening_iff.mpr is)] at closes
        cases innermost : state.forms with
        | nil =>
            rw [closes, innermost]
            exact ⟨place, _, rfl, .unexpected symbol⟩
        | cons form outer =>
            by_cases matching : symbol = closerOf form.opener
            · subst matching
              have outcome := closing_outcome forms formed innermost place
              cases result : state.step ⟨.bracket (closerOf form.opener), place⟩ with
              | error failure =>
                  rw [result] at outcome
                  exact outcome
              | ok after =>
                  rw [result] at outcome
                  obtain ⟨kept, same, count⟩ := outcome
                  refine ⟨kept, same, ?_⟩
                  simpa [Lexeme.depthAfter, opening] using count
            · rw [closes, innermost]
              dsimp only
              rw [if_neg matching]
              exact ⟨place, _, rfl, .unexpected symbol⟩
  | _ =>
      obtain ⟨e, leaf, adds⟩ := asLeaf (by rintro ⟨⟩) (by rintro ⟨⟩)
      rw [adds]
      refine ⟨formed.add (leaves _ (by simp) e leaf), ?_, forms_length_add state e⟩
      rw [written_add, lexemes_of_leaf? leaf]
      rfl

end Parsing

/-! ## Reading a row -/

theorem depthAfter_of_kind {lexeme : Lexeme} (noBracket : lexeme.kind ≠ .symbol) (depth : Nat) :
    lexeme.depthAfter depth = depth := by
  cases lexeme <;> first | rfl | exact absurd rfl noBracket

/-- Inside a bracket the next lexeme is the next one that is no newline. -/
theorem next_inside {depth : Nat} (inside : depth ≠ 0) {all : List Lexeme}
    (outside : NewlinesOutside depth all) {lexeme : Lexeme} {rest : List Lexeme}
    (said : all.filter (!·.isNewline) = lexeme :: rest) :
    ∃ later, all = lexeme :: later ∧ later.filter (!·.isNewline) = rest ∧
      NewlinesOutside (lexeme.depthAfter depth) later := by
  cases all with
  | nil => cases said
  | cons head later =>
      have noNewline : head.isNewline = false := by
        cases newline : head.isNewline with
        | false => rfl
        | true => exact absurd (outside.1 newline) inside
      rw [List.filter_cons_of_pos (by simp [noNewline])] at said
      obtain ⟨rfl, tail⟩ := List.cons.inj said
      exact ⟨later, rfl, tail, outside.2⟩

theorem Row.inside {row : List Lexeme} {count : Nat} (is : Row row count) {depth : Nat}
    (inside : depth ≠ 0) {all rest : List Lexeme} (outside : NewlinesOutside depth all)
    (said : all.filter (!·.isNewline) = row ++ rest) :
    ∃ later, all = row ++ later ∧ later.filter (!·.isNewline) = rest ∧
      NewlinesOutside depth later := by
  induction is generalizing depth all rest with
  | nil => exact ⟨all, rfl, said, outside⟩
  | leaf noBracket _ _ ih =>
      obtain ⟨tail, rfl, tailSaid, tailOutside⟩ := next_inside inside outside said
      rw [depthAfter_of_kind noBracket] at tailOutside
      obtain ⟨later, rfl, laterSaid, laterOutside⟩ := ih inside tailOutside tailSaid
      exact ⟨later, rfl, laterSaid, laterOutside⟩
  | @form opener within others held _ opening _ _ _ innerIh othersIh =>
      rw [List.cons_append, List.append_assoc, List.cons_append] at said
      obtain ⟨body, rfl, bodySaid, bodyOutside⟩ := next_inside inside outside said
      rw [Lexeme.depthAfter, if_pos opening] at bodyOutside
      obtain ⟨closing, rfl, closingSaid, closingOutside⟩ :=
        innerIh (Nat.succ_ne_zero depth) bodyOutside bodySaid
      obtain ⟨tail, rfl, tailSaid, tailOutside⟩ :=
        next_inside (Nat.succ_ne_zero depth) closingOutside closingSaid
      rw [Lexeme.depthAfter, closerOf_not_opening] at tailOutside
      obtain ⟨later, rfl, laterSaid, laterOutside⟩ := othersIh inside tailOutside tailSaid
      exact ⟨later, by simp, laterSaid, laterOutside⟩

namespace Parsing

/-! ## Reading a written tree -/

theorem addAll_inner (form : OpenForm) (outer : List OpenForm) (line : List Expr)
    (lines : List (List Expr)) (items : List Expr) :
    addAll ⟨form :: outer, line, lines⟩ items =
      ⟨{ form with items := items.reverse ++ form.items } :: outer, line, lines⟩ := by
  induction items generalizing form with
  | nil => rfl
  | cons e rest ih =>
      show addAll ⟨{ form with items := e :: form.items } :: outer, line, lines⟩ rest = _
      rw [ih]
      simp

theorem forms_addAll {state : Parsing} (none : state.forms = []) (items : List Expr) :
    (addAll state items).forms = [] := by
  induction items generalizing state with
  | nil => exact none
  | cons e rest ih =>
      show (addAll (state.add e) rest).forms = []
      refine ih ?_
      rw [← List.length_eq_zero_iff, forms_length_add, none]
      rfl

end Parsing

namespace Expr

def Counted : Expr → Prop
  | .call _ body => body ≠ []
  | .map _ body => body.length % 2 = 0
  | _ => True

/-- Tokens that add an expression to whatever is being read. -/
def ReadAs (tokens : List Token) (e : Expr) : Prop :=
  ∀ state : Parsing, tokens.foldlM Parsing.step state = .ok (state.add e)

section
variable {body : List Expr}
  (each : ∀ e ∈ body, ∀ tokens, Token.lexemes tokens = e.lexemes →
    ∃ found, found.placeless = e.shown ∧ ReadAs tokens found)
include each

theorem readAs_row {tokens : List Token} (said : Token.lexemes tokens = lexemesAll body) :
    ∃ found, found.map placeless = body.map shown ∧
      ∀ state : Parsing, tokens.foldlM Parsing.step state = .ok (state.addAll found) := by
  induction body generalizing tokens with
  | nil =>
      rw [List.map_eq_nil_iff.mp said]
      exact ⟨[], rfl, fun _ => rfl⟩
  | cons e rest ih =>
      obtain ⟨first, others, rfl, firstSaid, othersSaid⟩ := List.map_eq_append_iff.mp said
      obtain ⟨found, same, reads⟩ := each e (by simp) first firstSaid
      obtain ⟨later, sameLater, readsLater⟩ :=
        ih (fun x member => each x (by simp [member])) othersSaid
      refine ⟨found :: later, by simp [same, sameLater], fun state => ?_⟩
      rw [List.foldlM_append, reads]
      exact readsLater (state.add found)

theorem readAs_form {opener : Char} (opening : isOpening opener = true)
    (admits : Admits opener body.length) {tokens : List Token}
    (said : Token.lexemes tokens =
      .bracket opener :: (lexemesAll body ++ [.bracket (closerOf opener)])) :
    ∃ place items, items.map placeless = body.map shown ∧
      ReadAs tokens (ofForm opener place items) := by
  obtain ⟨⟨_, place⟩, rest, rfl, rfl, restSaid⟩ := List.map_eq_cons_iff.mp said
  obtain ⟨inner, closing, rfl, innerSaid, closingSaid⟩ := List.map_eq_append_iff.mp restSaid
  obtain ⟨⟨_, closingPlace⟩, behind, rfl, rfl, nothing⟩ := List.map_eq_cons_iff.mp closingSaid
  rw [List.map_eq_nil_iff.mp nothing]
  obtain ⟨items, same, adds⟩ := readAs_row each innerSaid
  have count : items.length = body.length := by simpa using congrArg List.length same
  refine ⟨place, items, same, fun state => ?_⟩
  obtain ⟨forms, line, lines⟩ := state
  have closes := OpenForm.close_of_admits ⟨opener, place, items.reverse⟩ opening
    (by simpa [count] using admits)
  have close := Parsing.step_closing ⟨⟨opener, place, items.reverse⟩ :: forms, line, lines⟩ rfl
    closingPlace
  rw [closes, List.reverse_reverse] at close
  rw [List.foldlM_cons, Parsing.step_opening _ opening]
  simp only [bind, Except.bind, List.foldlM_append, adds, Parsing.addAll_inner, List.append_nil,
    List.foldlM_cons]
  rw [close]
  rfl

end

theorem readAs_leaf (make : Location → Expr) {lexeme : Lexeme}
    (adds : ∀ place (state : Parsing), state.step ⟨lexeme, place⟩ = .ok (state.add (make place)))
    {tokens : List Token} (said : Token.lexemes tokens = [lexeme]) :
    ∃ place, ReadAs tokens (make place) := by
  obtain ⟨⟨_, place⟩, rest, rfl, rfl, nothing⟩ := List.map_eq_cons_iff.mp said
  rw [List.map_eq_nil_iff.mp nothing]
  refine ⟨place, fun state => ?_⟩
  rw [List.foldlM_cons, adds]
  rfl

/-- The brackets and leaves of a tree are read as what its written form shows. -/
theorem readAs_lexemes {e : Expr} (counted : e.Everywhere Counted) {tokens : List Token}
    (said : Token.lexemes tokens = e.lexemes) :
    ∃ found, found.placeless = e.shown ∧ ReadAs tokens found := by
  induction e using Expr.induction generalizing tokens with
  | call place body ih =>
      obtain ⟨filled, inside⟩ := everywhere_call.mp counted
      have admits : Admits '(' body.length := ⟨fun _ => by simpa [Counted] using filled, nofun⟩
      obtain ⟨place, items, same, reads⟩ := readAs_form
        (fun e member tokens => ih e member (inside e member)) (by decide) admits said
      refine ⟨.call place items, ?_, reads⟩
      rw [placeless, shown, placelessAll_eq_map, shownAll_eq_map, same]
  | array place body ih =>
      obtain ⟨-, inside⟩ := everywhere_array.mp counted
      have admits : Admits '[' body.length := ⟨nofun, nofun⟩
      obtain ⟨place, items, same, reads⟩ := readAs_form
        (fun e member tokens => ih e member (inside e member)) (by decide) admits said
      refine ⟨.array place items, ?_, reads⟩
      rw [placeless, shown, placelessAll_eq_map, shownAll_eq_map, same]
  | map place body ih =>
      obtain ⟨even, inside⟩ := everywhere_map.mp counted
      have admits : Admits '{' body.length := ⟨nofun, fun _ => even⟩
      obtain ⟨place, items, same, reads⟩ := readAs_form
        (fun e member tokens => ih e member (inside e member)) (by decide) admits said
      refine ⟨.map place items, ?_, reads⟩
      rw [placeless, shown, placelessAll_eq_map, shownAll_eq_map, same]
  | value place literal =>
      obtain ⟨place, reads⟩ := readAs_leaf (.value · literal)
        (by cases literal <;> exact fun _ _ => rfl) said
      exact ⟨_, rfl, reads⟩
  | command place name =>
      obtain ⟨place, reads⟩ := readAs_leaf (.value · (.word name)) (fun _ _ => rfl) said
      exact ⟨_, rfl, reads⟩
  | reference place name =>
      obtain ⟨place, reads⟩ := readAs_leaf (.variable · name) (fun _ _ => rfl) said
      exact ⟨_, rfl, reads⟩

theorem counted_ofForm {opener : Char} (opening : isOpening opener = true) {body : List Expr}
    (admits : Admits opener body.length) (inside : ∀ e ∈ body, e.Everywhere Counted)
    (place : Location) : (ofForm opener place body).Everywhere Counted := by
  rcases isOpening_iff.mp opening with rfl | rfl | rfl
  · exact everywhere_call.mpr ⟨by simpa [Counted] using admits.1 rfl, inside⟩
  · exact everywhere_array.mpr ⟨trivial, inside⟩
  · exact everywhere_map.mpr ⟨admits.2 rfl, inside⟩

theorem forms_counted : Parsing.KeptByForms (Everywhere Counted) :=
  fun _ place _ opening admits inside => counted_ofForm opening admits inside place

theorem counted_of_leaf? {lexeme : Lexeme} {place : Location} {e : Expr}
    (leaf : lexeme.leaf? place = some e) : e.Everywhere Counted :=
  everywhere_of_leaf? leaf (by cases lexeme <;> cases leaf <;> trivial)

theorem leaves_counted (tokens : List Token) : Parsing.HeldByLeaves (Everywhere Counted) tokens :=
  fun _ _ _ leaf => counted_of_leaf? leaf

theorem row_lexemes {e : Expr} (counted : e.Everywhere Counted) : Row e.lexemes 1 := by
  induction e using Expr.induction with
  | call place body ih =>
      obtain ⟨filled, inside⟩ := everywhere_call.mp counted
      exact .form (show isOpening '(' = true from rfl)
        (row_lexemesAll fun e member => ih e member (inside e member))
        ⟨fun _ => by simpa [Counted] using filled, nofun⟩ .nil
  | array place body ih =>
      obtain ⟨-, inside⟩ := everywhere_array.mp counted
      exact .form (show isOpening '[' = true from rfl)
        (row_lexemesAll fun e member => ih e member (inside e member))
        ⟨nofun, nofun⟩ .nil
  | map place body ih =>
      obtain ⟨even, inside⟩ := everywhere_map.mp counted
      exact .form (show isOpening '{' = true from rfl)
        (row_lexemesAll fun e member => ih e member (inside e member))
        ⟨nofun, fun _ => even⟩ .nil
  | value place literal => cases literal <;> exact .leaf nofun nofun .nil
  | command place name => exact .leaf nofun nofun .nil
  | reference place name => exact .leaf nofun nofun .nil

theorem exists_of_row {row : List Lexeme} {count : Nat} (is : Row row count) :
    ∃ body : List Expr, lexemesAll body = row ∧ body.length = count ∧
      ∀ e ∈ body, e.Everywhere Counted := by
  induction is with
  | nil => exact ⟨[], rfl, rfl, nofun⟩
  | @leaf lexeme rest count noBracket noNewline _ ih =>
      obtain ⟨others, rfl, length, counted⟩ := ih
      obtain ⟨e, leaf⟩ := leaf?_of_kind noBracket noNewline .nowhere
      exact ⟨e :: others, by simp [lexemesAll, lexemes_of_leaf? leaf], by simp [length],
        List.forall_mem_cons.mpr ⟨counted_of_leaf? leaf, counted⟩⟩
  | form opening _ admits _ innerIh othersIh =>
      obtain ⟨body, rfl, rfl, inside⟩ := innerIh
      obtain ⟨others, rfl, length, counted⟩ := othersIh
      refine ⟨ofForm _ .nowhere body :: others, ?_, by simp [length],
        List.forall_mem_cons.mpr ⟨counted_ofForm opening admits inside _, counted⟩⟩
      simp [lexemesAll, lexemes_ofForm opening]

end Expr

namespace Parsing

theorem foldlM_step_row {row : List Lexeme} {count : Nat} (is : Row row count)
    {tokens : List Token} (said : Token.lexemes tokens = row) :
    ∃ items : List Expr, ∀ state : Parsing,
      tokens.foldlM step state = .ok (state.addAll items) := by
  obtain ⟨body, rfl, -, counted⟩ := Expr.exists_of_row is
  obtain ⟨items, -, adds⟩ :=
    Expr.readAs_row (fun e member _ => Expr.readAs_lexemes (counted e member)) said
  exact ⟨items, adds⟩

theorem foldlM_step_newlines {tokens : List Token}
    (outside : NewlinesOutside 0 (Token.lexemes tokens)) (state : Parsing)
    (none : state.forms = []) :
    ∃ (later : List Token) (next : Parsing),
      tokens.foldlM step state = later.foldlM step next ∧ next.forms = [] ∧
        NewlinesOutside 0 (Token.lexemes later) ∧ Token.spoken later = Token.spoken tokens ∧
        ∀ token ∈ later.head?, token.lexeme.isNewline = false := by
  induction tokens generalizing state with
  | nil => exact ⟨[], state, rfl, none, outside, rfl, nofun⟩
  | cons token rest ih =>
      cases newline : token.lexeme.isNewline with
      | false => exact ⟨token :: rest, state, rfl, none, outside, rfl, by simpa using newline⟩
      | true =>
          have restOutside : NewlinesOutside 0 (Token.lexemes rest) := by
            have later := outside.2
            rwa [depthAfter_newline newline] at later
          obtain ⟨forms, line, lines⟩ := state
          obtain ⟨later, next, reads, closed, laterOutside, same, first⟩ :=
            ih restOutside ⟨[], [], line :: lines⟩ rfl
          have silent : Token.spoken (token :: rest) = Token.spoken rest :=
            List.filter_cons_of_neg (by simp [newline])
          refine ⟨later, next, ?_, closed, laterOutside, same.trans silent.symm, first⟩
          obtain ⟨lexeme, place⟩ := token
          cases none
          cases lexeme with
          | newline => exact reads
          | _ => cases newline

theorem foldlM_step_next {tokens : List Token}
    (outside : NewlinesOutside 0 (Token.lexemes tokens)) {state : Parsing} (none : state.forms = [])
    {lexeme : Lexeme} {others : List Lexeme} (said : Token.spoken tokens = lexeme :: others) :
    ∃ (token : Token) (later : List Token) (next : Parsing),
      tokens.foldlM step state = (token :: later).foldlM step next ∧ next.forms = [] ∧
        token.lexeme = lexeme ∧ NewlinesOutside (lexeme.depthAfter 0) (Token.lexemes later) ∧
        Token.spoken later = others := by
  obtain ⟨found, next, reads, closed, foundOutside, same, first⟩ :=
    foldlM_step_newlines outside state none
  rw [said] at same
  cases found with
  | nil => cases same
  | cons token later =>
      have heard : Token.spoken (token :: later) = token.lexeme :: Token.spoken later :=
        List.filter_cons_of_pos (by simp [first token rfl])
      rw [heard] at same
      obtain ⟨rfl, rest⟩ := List.cons.inj same
      exact ⟨token, later, next, reads, closed, rfl, foundOutside.2, rest⟩

/-- Where no form is open, the tokens of a row are read whatever newlines stand outside its
forms. -/
theorem foldlM_step_lines {row : List Lexeme} {count : Nat} (is : Row row count)
    {tokens : List Token} (outside : NewlinesOutside 0 (Token.lexemes tokens))
    (said : Token.spoken tokens = row) (state : Parsing) (none : state.forms = []) :
    ∃ after, tokens.foldlM step state = .ok after ∧ after.forms = [] := by
  induction is generalizing tokens state with
  | nil =>
      obtain ⟨later, next, reads, closed, -, same, first⟩ := foldlM_step_newlines outside state none
      rw [reads]
      cases later with
      | nil => exact ⟨next, rfl, closed⟩
      | cons token rest =>
          rw [said, Token.spoken, Token.lexemes, List.map_cons,
            List.filter_cons_of_pos (by simp [first token rfl])] at same
          cases same
  | leaf noBracket noNewline _ ih =>
      obtain ⟨token, rest, next, reads, closed, rfl, restOutside, restSaid⟩ :=
        foldlM_step_next outside none said
      rw [depthAfter_of_kind noBracket] at restOutside
      obtain ⟨e, -, adds⟩ := step_leaf noBracket noNewline
      rw [reads, List.foldlM_cons, adds]
      exact ih restOutside restSaid _ (forms_addAll closed [e])
  | @form opener within afterwards held _ opening inner admits _ _ ih =>
      obtain ⟨token, rest, next, reads, closed, same, restOutside, restSaid⟩ :=
        foldlM_step_next outside none said
      rw [Lexeme.depthAfter, if_pos opening] at restOutside
      obtain ⟨closing, restLexemes, closingSaid, closingOutside⟩ :=
        inner.inside Nat.one_ne_zero restOutside restSaid
      obtain ⟨tail, rfl, tailSaid, tailOutside⟩ :=
        next_inside Nat.one_ne_zero closingOutside closingSaid
      rw [Lexeme.depthAfter, closerOf_not_opening] at tailOutside
      -- The form is a row by itself, so its tokens add one expression.
      obtain ⟨body, ended, rfl, bodySaid, endedSaid⟩ := List.map_eq_append_iff.mp restLexemes
      obtain ⟨closer, behind, rfl, closerSaid, rfl⟩ := List.map_eq_cons_iff.mp endedSaid
      have formSaid : Token.lexemes (token :: (body ++ [closer])) =
          .bracket opener :: (within ++ [.bracket (closerOf opener)]) := by
        simp [Token.lexemes, same, bodySaid, closerSaid]
      obtain ⟨items, adds⟩ := foldlM_step_row (.form opening inner admits .nil) formSaid
      have whole : token :: (body ++ closer :: behind) = token :: (body ++ [closer]) ++ behind := by
        simp
      rw [reads, whole, List.foldlM_append, adds]
      exact ih tailOutside tailSaid _ (forms_addAll closed items)

end Parsing

end ShellLisp
