import ShellLisp.Proofs.Reading.Rows

/-!
# The grammar of programs

The parser reads exactly the programs of the grammar whose brackets are not nested too deep, and
what it reads has the brackets and leaves of the program in their order.
-/

namespace ShellLisp

namespace Parsing
variable {p : Expr → Prop}

/-! ## Whole programs -/

/-- What reading tokens within a limit gives, and why it fails. -/
theorem foldlM_stepWithin_outcome (keeps : KeptByForms p) (limit : Nat) {tokens : List Token}
    {state : Parsing}
    (formed : Formed p state) (leaves : HeldByLeaves p tokens)
    (outside : NewlinesOutside state.forms.length (Token.lexemes tokens)) :
    match tokens.foldlM (stepWithin limit) state with
    | .ok after => Formed p after ∧ after.written = state.written ++ Token.spoken tokens ∧
        deepest state.forms.length (Token.lexemes tokens) ≤ limit
    | .error failure =>
        (failure = .tooDeep ∧ limit < deepest state.forms.length (Token.lexemes tokens)) ∨
          ∃ place cause, failure = .at place cause ∧ Ungrammatical cause := by
  induction tokens generalizing state with
  | nil => exact ⟨formed, (List.append_nil _).symm, Nat.zero_le limit⟩
  | cons token rest ih =>
      obtain ⟨first, later⟩ := outside
      obtain ⟨leaf, others⟩ := heldByLeaves_cons.mp leaves
      have one := step_outcome keeps formed leaf first
      rw [List.foldlM_cons, stepWithin]
      cases action : state.step token with
      | error failure =>
          rw [action] at one
          exact .inr one
      | ok next =>
          rw [action] at one
          obtain ⟨nextFormed, nextWritten, counted⟩ := one
          simp only [bind, Except.bind]
          have deep : deepest state.forms.length (Token.lexemes (token :: rest)) =
              max next.forms.length (deepest next.forms.length (Token.lexemes rest)) := by
            rw [counted]
            rfl
          -- The limit is checked after each step, so the deepest nesting so far is within it.
          by_cases beyond : limit < next.forms.length
          · rw [if_pos beyond]
            exact .inl ⟨rfl, by omega⟩
          · simp only [if_neg beyond, deep]
            have run := ih nextFormed others (by rw [counted]; exact later)
            cases whole : rest.foldlM (stepWithin limit) next with
            | error failure =>
                rw [whole] at run
                exact run.imp (fun ⟨same, more⟩ => ⟨same, by omega⟩) id
            | ok after =>
                rw [whole] at run
                obtain ⟨afterFormed, afterWritten, fits⟩ := run
                refine ⟨afterFormed, ?_, by omega⟩
                rw [afterWritten, nextWritten, List.append_assoc, ← Token.spoken_append]
                rfl

theorem foldlM_stepWithin_eq (keeps : KeptByForms p) {limit : Nat} {tokens : List Token}
    {state : Parsing}
    (formed : Formed p state) (leaves : HeldByLeaves p tokens)
    (outside : NewlinesOutside state.forms.length (Token.lexemes tokens))
    (fits : deepest state.forms.length (Token.lexemes tokens) ≤ limit) :
    tokens.foldlM (stepWithin limit) state = tokens.foldlM step state := by
  induction tokens generalizing state with
  | nil => rfl
  | cons token rest ih =>
      obtain ⟨first, later⟩ := outside
      obtain ⟨leaf, others⟩ := heldByLeaves_cons.mp leaves
      have one := step_outcome keeps formed leaf first
      rw [List.foldlM_cons, List.foldlM_cons, stepWithin]
      cases action : state.step token with
      | error failure => rfl
      | ok next =>
          rw [action] at one
          obtain ⟨nextFormed, -, counted⟩ := one
          have bounded : max next.forms.length (deepest next.forms.length (Token.lexemes rest)) ≤
              limit := by
            rw [counted]
            exact fits
          simp only [bind, Except.bind]
          rw [if_neg (by omega)]
          exact ih nextFormed others (by rw [counted]; exact later) (by omega)

end Parsing

namespace Expr

variable {p : Expr → Prop}

theorem ofParsing_outcome {state : Parsing} (formed : state.Formed p) (place : Location) :
    match ofParsing state place with
    | .ok result => ∃ lines : List (List Expr), (∀ line ∈ lines, line ≠ [] ∧ ∀ e ∈ line, p e) ∧
        result = program (lines.map statement) ∧ lexemesAll lines.flatten = state.written
    | .error failure => ∃ place cause, failure = .at place cause ∧ Ungrammatical cause := by
  obtain ⟨forms, line, lines⟩ := state
  cases forms with
  | cons form outer => exact ⟨place, _, rfl, .unterminatedForm _⟩
  | nil =>
      let finished := Parsing.finishedLines ⟨[], line, lines⟩
      have spelled : lexemesAll finished.flatten = Parsing.written ⟨[], line, lines⟩ := by
        simp [finished, Parsing.finishedLines, Parsing.written, lexemesAll_append,
          List.flatMap_def]
      refine ⟨finished.filter (!·.isEmpty), ?_, rfl, ?_⟩
      · intro found member
        obtain ⟨among, filled⟩ := List.mem_filter.mp member
        obtain ⟨row, inRows, rfl⟩ := List.mem_map.mp among
        refine ⟨by simpa using filled, fun e inside => ?_⟩
        rcases List.mem_cons.mp (List.mem_reverse.mp inRows) with rfl | earlier
        · exact formed.line e (List.mem_reverse.mp inside)
        · exact formed.lines row earlier e (List.mem_reverse.mp inside)
      · rw [List.flatten_filter_not_isEmpty, spelled]

theorem parseWithin_outcome (keeps : Parsing.KeptByForms p) (limit : Nat) {tokens : List Token}
    (leaves : Parsing.HeldByLeaves p tokens) (outside : NewlinesOutside 0 (Token.lexemes tokens)) :
    match parseWithin limit tokens with
    | .ok result => deepest 0 (Token.lexemes tokens) ≤ limit ∧
        ∃ lines : List (List Expr), (∀ line ∈ lines, line ≠ [] ∧ ∀ e ∈ line, p e) ∧
          result = program (lines.map statement) ∧ lexemesAll lines.flatten = Token.spoken tokens
    | .error failure => (failure = .tooDeep ∧ limit < deepest 0 (Token.lexemes tokens)) ∨
        ∃ place cause, failure = .at place cause ∧ Ungrammatical cause := by
  have run := Parsing.foldlM_stepWithin_outcome keeps limit .start leaves outside
  unfold parseWithin
  cases action : tokens.foldlM (Parsing.stepWithin limit) .start with
  | error failure =>
      rw [action] at run
      exact run
  | ok state =>
      rw [action] at run
      obtain ⟨formed, written, fits⟩ := run
      have spoken : state.written = Token.spoken tokens := written.trans (List.nil_append _)
      have ended := ofParsing_outcome formed (lastPlace tokens)
      simp only [bind, Except.bind]
      cases done : ofParsing state (lastPlace tokens) with
      | error failure =>
          rw [done] at ended
          exact .inr ended
      | ok result =>
          simp only [done, spoken] at ended
          exact ⟨fits, ended⟩

theorem parseWithin_eq_parse {limit : Nat} {tokens : List Token}
    (outside : NewlinesOutside 0 (Token.lexemes tokens))
    (fits : deepest 0 (Token.lexemes tokens) ≤ limit) :
    parseWithin limit tokens = parse tokens := by
  have same := Parsing.foldlM_stepWithin_eq forms_counted .start
    (leaves_counted tokens) outside fits
  rw [parseWithin, parse, same]

theorem parse_of_row {tokens : List Token} (outside : NewlinesOutside 0 (Token.lexemes tokens))
    {count : Nat} (is : Row (Token.spoken tokens) count) : ∃ result, parse tokens = .ok result := by
  obtain ⟨after, done, closed⟩ := Parsing.foldlM_step_lines is outside rfl .start rfl
  rw [parse, done]
  simp only [bind, Except.bind, ofParsing, closed]
  exact ⟨_, rfl⟩

theorem foldlM_stepWithin_tooDeep {limit : Nat} {tokens : List Token} {state after : Parsing}
    (done : tokens.foldlM Parsing.step state = .ok after) {failure : Failure}
    (failed : tokens.foldlM (Parsing.stepWithin limit) state = .error failure) :
    failure = .tooDeep := by
  induction tokens generalizing state with
  | nil => cases failed
  | cons token rest ih =>
      rw [List.foldlM_cons] at done failed
      cases action : state.step token with
      | error reason => simp [action, bind, Except.bind] at done
      | ok next =>
          simp only [Parsing.stepWithin, action, bind, Except.bind] at done failed
          by_cases beyond : limit < next.forms.length
          · rw [if_pos beyond] at failed
            cases failed
            rfl
          · rw [if_neg beyond] at failed
            exact ih done failed

theorem parseWithin_of_row {tokens : List Token}
    (outside : NewlinesOutside 0 (Token.lexemes tokens)) {count : Nat}
    (is : Row (Token.spoken tokens) count) {limit : Nat}
    (deep : limit < deepest 0 (Token.lexemes tokens)) :
    parseWithin limit tokens = .error .tooDeep := by
  obtain ⟨after, done, closed⟩ := Parsing.foldlM_step_lines is outside rfl .start rfl
  have result := parseWithin_outcome forms_counted limit (leaves_counted tokens) outside
  unfold parseWithin at result ⊢
  cases action : tokens.foldlM (Parsing.stepWithin limit) .start with
  | error failure => rw [foldlM_stepWithin_tooDeep done action]; rfl
  | ok state =>
      rw [foldlM_step_of_stepWithin action] at done
      cases done
      simp only [action, bind, Except.bind, ofParsing, closed] at result
      exact absurd result.1 (by omega)

/-- The parser reads exactly the rows whose brackets are not nested too deep. What it reads has
the brackets and leaves of the program in their order, apart from the calls that lines of several
expressions are and the sequence that several lines are. It refuses other programs for what their
brackets and counts are, and never meets a newline inside a form. -/
theorem parseWithin_reads_rows {source : String} {tokens : List Token}
    (lexed : Token.lex source = .ok tokens) (limit : Nat) :
    ((∃ result, parse tokens = .ok result) ↔ ∃ count, Row (Token.spoken tokens) count) ∧
    ((∃ result, parseWithin limit tokens = .ok result) ↔
      (∃ count, Row (Token.spoken tokens) count) ∧ deepest 0 (Token.lexemes tokens) ≤ limit) ∧
    (∀ result, parseWithin limit tokens = .ok result →
      ∃ lines : List (List Expr), (∀ line ∈ lines, line ≠ []) ∧
        result = program (lines.map statement) ∧ lexemesAll lines.flatten = Token.spoken tokens) ∧
    (∀ failure, parseWithin limit tokens = .error failure →
      (failure = .tooDeep ∧ limit < deepest 0 (Token.lexemes tokens)) ∨
        ∃ place cause, failure = .at place cause ∧ Ungrammatical cause) := by
  have outside := newlinesOutside_lex lexed
  have accepted {bound : Nat} {result : Option Expr}
      (done : parseWithin bound tokens = .ok result) := by
    simpa only [done] using parseWithin_outcome forms_counted bound (leaves_counted tokens) outside
  have row {bound : Nat} {result : Option Expr} (done : parseWithin bound tokens = .ok result) :
      ∃ count, Row (Token.spoken tokens) count := by
    obtain ⟨-, lines, counted, -, spoken⟩ := accepted done
    refine ⟨_, spoken ▸ row_lexemesAll fun e member => ?_⟩
    obtain ⟨line, among, inside⟩ := List.mem_flatten.mp member
    exact row_lexemes ((counted line among).2 e inside)
  refine ⟨⟨?_, fun ⟨_, is⟩ => parse_of_row outside is⟩, ⟨?_, ?_⟩, ?_, ?_⟩
  · rintro ⟨result, done⟩
    rw [← parseWithin_eq_parse outside (Nat.le_refl _)] at done
    exact row done
  · rintro ⟨result, done⟩
    exact ⟨row done, (accepted done).1⟩
  · rintro ⟨⟨_, is⟩, fits⟩
    rw [parseWithin_eq_parse outside fits]
    exact parse_of_row outside is
  · intro result done
    obtain ⟨-, lines, filled, written, spoken⟩ := accepted done
    exact ⟨lines, fun line member => (filled line member).1, written, spoken⟩
  · intro failure failed
    simpa only [failed] using
      parseWithin_outcome forms_counted limit (leaves_counted tokens) outside

def twoLines : List Token :=
  [⟨.word "f", ⟨1, 1⟩⟩, ⟨.bracket '[', ⟨1, 3⟩⟩, ⟨.word "a", ⟨1, 4⟩⟩, ⟨.bracket ']', ⟨1, 5⟩⟩,
    ⟨.newline, ⟨1, 6⟩⟩, ⟨.word "g", ⟨2, 1⟩⟩, ⟨.bracket '\x7b', ⟨2, 3⟩⟩, ⟨.bracket '\x7d', ⟨2, 4⟩⟩]

theorem twoLines_row :
    Token.lex "f [a]\ng \x7b\x7d" = .ok twoLines ∧
      (∃ result, parseWithin 1 twoLines = .ok result) ∧
      (∃ count, Row (Token.spoken twoLines) count) ∧
      ¬∃ result, parseWithin 0 twoLines = .ok result := by
  have lexed : Token.lex "f [a]\ng \x7b\x7d" = .ok twoLines := by cbv
  have parsed : ∃ result, parseWithin 1 twoLines = .ok result := ⟨_, rfl⟩
  obtain ⟨row, -⟩ := (parseWithin_reads_rows lexed 1).2.1.mp parsed
  refine ⟨lexed, parsed, row, fun shallow => ?_⟩
  exact absurd ((parseWithin_reads_rows lexed 0).2.1.mp shallow).2 (by decide)

/-- So many arrays, each the only element of the one around it, the innermost empty. -/
def nestedArrays : Nat → Expr
  | 0 => .array .nowhere []
  | depth + 1 => .array .nowhere [nestedArrays depth]

theorem chars_nestedArrays (depth : Nat) :
    (nestedArrays depth).chars =
      List.replicate (depth + 1) '[' ++ List.replicate (depth + 1) ']' := by
  induction depth with
  | zero => rfl
  | succ depth ih =>
      rw [nestedArrays, chars, bodyChars, restChars, ih, List.replicate_succ (n := depth + 1),
        List.replicate_succ' (n := depth + 1) (a := ']')]
      simp

theorem nesting_nestedArrays (depth : Nat) : (nestedArrays depth).nesting = depth + 1 := by
  induction depth with
  | zero => rfl
  | succ depth ih => simp [nestedArrays, nesting, nestingAll, ih]

theorem everywhere_nestedArrays {p : Expr → Prop} (array : ∀ place body, p (.array place body))
    (depth : Nat) : (nestedArrays depth).Everywhere p := by
  induction depth with
  | zero => exact everywhere_array.mpr ⟨array _ _, nofun⟩
  | succ depth ih => exact everywhere_array.mpr ⟨array _ _, by simpa using ih⟩

theorem nestedArrays_refused :
    let source := String.ofList (List.replicate 3000 '[' ++ List.replicate 3000 ']')
    ∃ tokens, Token.lex source = .ok tokens ∧ Row (Token.spoken tokens) 1 ∧
      ofSource source = .error .tooDeep := by
  have spelled := everywhere_nestedArrays (p := LeafSpelled) (fun _ _ => trivial) 2999
  have counted := everywhere_nestedArrays (p := Counted) (fun _ _ => trivial) 2999
  obtain ⟨tokens, lexed, said⟩ := lex_text spelled
  have row := spoken_of_lexemes said ▸ row_lexemes counted
  have deep : depthLimits.brackets < deepest 0 (Token.lexemes tokens) := by
    have nested := deepest_lexemes (nestedArrays 2999) 0 []
    rw [said, ← List.append_nil (lexemes _), nested, nesting_nestedArrays]
    decide
  have refused := parseWithin_of_row (newlinesOutside_lex lexed) row deep
  rw [text, chars_nestedArrays] at lexed
  refine ⟨tokens, lexed, row, ?_⟩
  rw [ofSource, lexed]
  exact refused

end Expr

end ShellLisp
