import ShellLisp.Proofs.Reading.Grammar
import ShellLisp.Proofs.Reading.Scans

/-!
# Text further down

Lexing and parsing look at places only to hand them on. A text that starts some lines further down is
cut into the same pieces and read as the same expressions, all of them that many lines further down,
and where it is refused, it is refused for the same reason, further down as well.
-/

namespace ShellLisp

/-! ## What is further down -/

def Location.movedDown (place : Location) (count : Nat) : Location :=
  ⟨place.line + count, place.column⟩

def Piece.movedDown (piece : Piece) (count : Nat) : Piece :=
  { piece with place := piece.place.movedDown count }

def Token.movedDown (token : Token) (count : Nat) : Token :=
  { token with place := token.place.movedDown count }

def Failure.movedDown (failure : Failure) (count : Nat) : Failure :=
  match failure with
  | .problem ⟨cause, place⟩ => .problem ⟨cause, place.map (·.movedDown count)⟩
  | other => other

namespace Expr

mutual

def movedDown (count : Nat) : Expr → Expr
  | .call place body => .call (place.movedDown count) (movedDownAll count body)
  | .array place body => .array (place.movedDown count) (movedDownAll count body)
  | .map place body => .map (place.movedDown count) (movedDownAll count body)
  | .value place literal => .value (place.movedDown count) literal
  | .command place name => .command (place.movedDown count) name
  | .variable place name => .variable (place.movedDown count) name

def movedDownAll (count : Nat) : List Expr → List Expr
  | [] => []
  | e :: rest => e.movedDown count :: movedDownAll count rest

end

theorem movedDownAll_eq_map (count : Nat) (body : List Expr) :
    movedDownAll count body = body.map (movedDown count) := by
  induction body with
  | nil => rfl
  | cons e rest ih => rw [movedDownAll, ih, List.map_cons]

theorem place_movedDown (count : Nat) (e : Expr) :
    (e.movedDown count).place = e.place.movedDown count := by
  cases e <;> rfl

theorem isBareWord_movedDown (count : Nat) (e : Expr) :
    (e.movedDown count).isBareWord = e.isBareWord := by
  cases e with
  | value place literal => cases literal <;> rfl
  | _ => rfl

end Expr

section
variable {α β γ : Type} (count : Nat)

/-- A result further down, given what it is for a success to be further down. -/
def resultMovedDown (move : α → β) (result : Except Failure α) : Except Failure β :=
  (result.map move).mapError (·.movedDown count)

theorem resultMovedDown_bind {move : α → β} {moveNext : γ → γ} {first : Except Failure α}
    {next : α → Except Failure γ} {nextThere : β → Except Failure γ}
    (each : ∀ a, nextThere (move a) = resultMovedDown count moveNext (next a)) :
    (resultMovedDown count move first >>= nextThere) =
      resultMovedDown count moveNext (first >>= next) := by
  cases first with
  | error failure => rfl
  | ok a => exact each a

end

variable (count : Nat)

/-! ## Lexing -/

namespace Location

theorem next_movedDown (place : Location) (c : Char) :
    (place.movedDown count).next c = (place.next c).movedDown count := by
  unfold next
  split
  · simp only [movedDown, Nat.add_right_comm]
  · rfl

theorem afterText_movedDown (place : Location) (text : List Char) :
    (place.movedDown count).afterText text = (place.afterText text).movedDown count := by
  induction text generalizing place with
  | nil => rfl
  | cons c rest ih =>
      show ((place.movedDown count).next c).afterText rest = _
      rw [next_movedDown, ih]
      rfl

end Location

theorem Cut.first_movedDown (place : Location) (depth : Nat) (c : Char) (rest : List Char) :
    Cut.first (place.movedDown count) depth c rest =
      resultMovedDown count id (Cut.first place depth c rest) := by
  unfold Cut.first
  dsimp only
  repeat' split
  all_goals rfl

theorem pieces_movedDown (place : Location) (depth : Nat) (text : List Char) :
    pieces (place.movedDown count) depth text =
      resultMovedDown count (·.map (·.movedDown count)) (pieces place depth text) := by
  induction length : text.length using Nat.strongRecOn generalizing text place depth with
  | ind size ih =>
      cases text with
      | nil => simp only [pieces_nil]; rfl
      | cons c rest =>
          rw [pieces_cons, pieces_cons, Cut.first_movedDown]
          refine resultMovedDown_bind count fun cut => ?_
          have shorter : (rest.drop cut.more).length < size := by
            rw [← length, List.length_drop, List.length_cons]
            omega
          dsimp only [id]
          rw [Location.afterText_movedDown, ih _ shorter _ _ _ rfl]
          exact resultMovedDown_bind count fun others => rfl

theorem filterMap_token?_movedDown (found : List Piece) :
    (found.map (·.movedDown count)).filterMap Piece.token? =
      (found.filterMap Piece.token?).map (·.movedDown count) := by
  rw [List.filterMap_map, List.map_filterMap]
  congr 1
  funext piece
  simp only [Function.comp_apply, Piece.token?, Piece.movedDown, Option.map_map]
  rfl

theorem settleNewlines_movedDown (before : Option Lexeme) (tokens : List Token) :
    settleNewlines before (tokens.map (·.movedDown count)) =
      (settleNewlines before tokens).map (·.movedDown count) := by
  induction tokens generalizing before with
  | nil => rfl
  | cons token rest ih =>
      have said : (token.movedDown count).lexeme = token.lexeme := rfl
      rw [List.map_cons, settleNewlines, settleNewlines, said, ih, ih]
      split <;> rfl

theorem dropLastNewlines_movedDown (tokens : List Token) :
    dropLastNewlines (tokens.map (·.movedDown count)) =
      (dropLastNewlines tokens).map (·.movedDown count) := by
  rw [dropLastNewlines, dropLastNewlines, ← List.map_reverse, List.dropWhile_map, ← List.map_reverse]
  rfl

/-! ## Parsing -/

def OpenForm.movedDown (form : OpenForm) : OpenForm :=
  ⟨form.opener, form.place.movedDown count, form.items.map (Expr.movedDown count)⟩

theorem OpenForm.close_movedDown (form : OpenForm) :
    (form.movedDown count).close = resultMovedDown count (Expr.movedDown count) form.close := by
  obtain ⟨opener, place, items⟩ := form
  unfold close
  simp only [movedDown, ← List.map_reverse, List.isEmpty_map, List.length_map]
  repeat' split
  all_goals first
    | rfl
    | (simp only [resultMovedDown, Except.map, Except.mapError, Expr.movedDown,
        Expr.movedDownAll_eq_map])

namespace Parsing

def behind (earlier : List (List Expr)) (state : Parsing) : Parsing :=
  ⟨state.forms.map (·.movedDown count), state.line.map (Expr.movedDown count),
    state.lines.map (·.map (Expr.movedDown count)) ++ earlier⟩

variable (earlier : List (List Expr))

theorem add_behind (state : Parsing) (e : Expr) :
    (behind count earlier state).add (e.movedDown count) = behind count earlier (state.add e) := by
  obtain ⟨forms, line, lines⟩ := state
  cases forms <;> rfl

theorem bracket_behind (state : Parsing) (place : Location) (symbol : Char) :
    (behind count earlier state).bracket (place.movedDown count) symbol =
      resultMovedDown count (behind count earlier) (state.bracket place symbol) := by
  obtain ⟨forms, line, lines⟩ := state
  unfold bracket
  split
  · rfl
  · cases forms with
    | nil => rfl
    | cons form outer =>
        have opener : (form.movedDown count).opener = form.opener := rfl
        simp only [behind, List.map_cons, opener]
        by_cases closes : symbol = closerOf form.opener
        · rw [if_pos closes, if_pos closes, OpenForm.close_movedDown]
          cases form.close with
          | error failure => rfl
          | ok e => exact congrArg Except.ok (add_behind count earlier ⟨outer, line, lines⟩ e)
        · rw [if_neg closes, if_neg closes]
          rfl

/-- The parser does not look at what it has read before, nor at places. -/
theorem step_behind (state : Parsing) (token : Token) :
    (behind count earlier state).step (token.movedDown count) =
      resultMovedDown count (behind count earlier) (state.step token) := by
  have asLeaf := @step_leaf token
  have asLeafThere := @step_leaf (token.movedDown count)
  obtain ⟨lexeme, place⟩ := token
  cases lexeme with
  | bracket symbol => exact bracket_behind count earlier state place symbol
  | newline =>
      obtain ⟨forms, line, lines⟩ := state
      cases forms <;> rfl
  | _ =>
      obtain ⟨e, leaf, adds⟩ := asLeaf (by rintro ⟨⟩) (by rintro ⟨⟩)
      obtain ⟨there, leafThere, addsThere⟩ := asLeafThere (by rintro ⟨⟩) (by rintro ⟨⟩)
      obtain rfl : e.movedDown count = there := by
        cases leaf
        cases leafThere
        rfl
      rw [adds, addsThere, add_behind]
      rfl

theorem stepWithin_behind (limit : Nat) (state : Parsing) (token : Token) :
    (behind count earlier state).stepWithin limit (token.movedDown count) =
      resultMovedDown count (behind count earlier) (state.stepWithin limit token) := by
  rw [stepWithin, stepWithin, step_behind]
  refine resultMovedDown_bind count fun after => ?_
  simp only [behind, List.length_map]
  split <;> rfl

theorem foldlM_stepWithin_behind (limit : Nat) (state : Parsing) (tokens : List Token) :
    (tokens.map (·.movedDown count)).foldlM (stepWithin limit) (behind count earlier state) =
      resultMovedDown count (behind count earlier) (tokens.foldlM (stepWithin limit) state) := by
  induction tokens generalizing state with
  | nil => rfl
  | cons token rest ih =>
      rw [List.map_cons, List.foldlM_cons, List.foldlM_cons, stepWithin_behind]
      exact resultMovedDown_bind count ih

end Parsing

end ShellLisp
