import ShellLisp.Proofs.Reading.SideBySide

/-!
# Heads of calls

A word that is the head of a group of a call, or of a line, and an expression that may be its head
instead. The parser reads both to trees that may be interchanged, whatever stands behind them, when
the word keeps its place as the head of a call. A word that stands alone between operators, or on a
line, is made a call by that; then an expression may stand for that call.
-/

namespace ShellLisp
open ShellLisp.Expr (Interchangeable)

namespace Expr

/-- A word and what may stand for it at the head of a group: as the head, or, where the word stands
alone, for the call that the word is made. -/
structure HeadChange (head headToo : Expr) (alone : Bool) : Prop where
  word : head.isBareWord = true
  item : head.operator? = none
  long : headToo.isBareWord = false
  groupable : headToo.withCommands.Groupable
  heads : alone = false → HeadAlike head.joined headToo.joined
  single : alone = true → ∀ p, ItemAlike (.call p [head.joined.asHead]) headToo.joined

/-- What stands around the head of a group: nothing else in the group, with operators or ends on
both sides that make the group a call, or else something that makes the head the head of a call. -/
def Company (alone : Bool) (left right : List Expr) : Prop :=
  if alone then (∀ e ∈ left.getLast?, e.operator? = some ";") ∧
    ((∃ e ∈ right.head?, e.operator?.isSome = true) ∨ left ≠ [] ∧ right = [])
  else (∃ e ∈ left.getLast?, e.operator? ≠ some ";") ∨
    (∃ e ∈ right.head?, e.operator? = none) ∨ left = [] ∧ right = []

theorem operator?_of_not_bareWord {e : Expr} (long : e.isBareWord = false) :
    e.operator? = none := by
  cases action : e.operator? with
  | none => rfl
  | some operator => rw [isBareWord_of_operator action] at long; cases long

theorem isBareWord_joined (e : Expr) : e.joined.isBareWord = e.isBareWord := by
  rw [Expr.isBareWord, Expr.isBareWord, bareWord?_joined]

section
variable {head headToo : Expr} {alone : Bool} {left right other : List Expr}

theorem interchangeable_of_headChange (change : HeadChange head headToo alone)
    (starts : ∀ e ∈ left.getLast?, e.operator?.isSome = true) (company : Company alone left right)
    (rest : List.Forall₂ Interchangeable right other) (p q : Location) :
    Interchangeable (.call p (left ++ head :: right)) (.call q (left ++ headToo :: other)) := by
  obtain ⟨word, item, long, groupable, heads, single⟩ := change
  have wordGroupable : head.withCommands.Groupable :=
    groupable_of_bareWord ((isBareWord_withCommands head).trans word)
  refine interchangeable_call p q ?_ fun all => ?_
  · simp only [List.forall_mem_append, List.forall_mem_cons, forall_groupable rest, wordGroupable,
      groupable]
  · obtain ⟨-, behind⟩ := List.forall_mem_append.mp all
    have alike := forall₂_alike rest (List.forall_mem_cons.mp behind).2
    have starts : ∀ e ∈ (left.map joined).getLast?, e.operator?.isSome = true := by
      simpa [List.getLast?_map, operator?_joined] using starts
    have itemJoined : head.joined.operator? = none := (operator?_joined head).trans item
    have longJoined : headToo.joined.isBareWord = false := (isBareWord_joined headToo).trans long
    rw [List.map_append, List.map_append, List.map_cons, List.map_cons]
    cases alone with
    | true =>
        obtain ⟨sequence, between⟩ := (if_pos rfl).mp company
        refine rowAlike_of_single starts itemJoined ((isBareWord_joined head).trans word)
          longJoined (single rfl) alike ?_ ?_
        · simpa [List.getLast?_map, operator?_joined] using sequence
        · simpa [List.head?_map, operator?_joined] using between
    | false =>
        refine rowAlike_of_head starts itemJoined (operator?_of_not_bareWord longJoined)
          (heads rfl) alike ?_
        simpa [Company, List.getLast?_map, List.head?_map, operator?_joined] using company

end

theorem interchangeable_of_single {head headToo : Expr} (change : HeadChange head headToo true)
    (p : Location) : Interchangeable (.call p [head]) headToo := by
  have wordGroupable : head.withCommands.Groupable :=
    groupable_of_bareWord ((isBareWord_withCommands head).trans change.word)
  have plain : chain [head.joined] = ([head.joined], []) := by
    rw [chain_of_item ((operator?_joined head).trans change.item)]
    rfl
  have made : (Expr.call p [head]).joined = .call p [head.joined.asHead] := by
    rw [joined_call, linked, List.map_singleton, chain_markHead, plain, markHead_cons]
  refine ⟨?_, iff_of_true ?_ change.groupable, fun _ => ?_⟩
  · have long := change.long
    rw [Expr.isBareWord, Option.isSome_eq_false_iff, Option.isNone_iff_eq_none] at long
    exact long.symm
  · refine groupable_withCommands_call.mpr ⟨groupsFilled_of_no_link ?_, ?_⟩
    · rw [List.map_singleton, plain]
    · simpa using wordGroupable
  · rw [made]
    exact (change.single rfl p).same

end Expr

/-! ## The row that holds the head -/

/-- Rows that hold a head and what stands for it, with something behind it that is an operator or
is none. -/
def headRows (head headToo : Expr) (alone operator : Bool) (left : List Expr)
    (change : Expr.HeadChange head headToo alone)
    (starts : ∀ e ∈ left.head?, e.operator?.isSome = true)
    (company : ∀ e rest, e.operator?.isSome = operator →
      Expr.Company alone left.reverse (e :: rest)) : HeadRows where
  settled first second := ∃ a b right other, Interchangeable a b ∧
    List.Forall₂ Interchangeable right other ∧ a.operator?.isSome = operator ∧
    first = right ++ a :: head :: left ∧ second = other ++ b :: headToo :: left
  pending first second := operator = false ∧ first = head :: left ∧ second = headToo :: left
  grow := by
    rintro _ _ a b ⟨c, d, right, other, next, rest, is, rfl, rfl⟩ alike
    exact ⟨c, d, a :: right, b :: other, next, .cons alike rest, is, rfl, rfl⟩
  fill := by
    rintro _ _ a b ⟨rfl, rfl, rfl⟩ alike long
    exact ⟨a, b, [], [], alike, .nil, by rw [Expr.operator?_of_not_bareWord long]; rfl, rfl, rfl⟩
  long := by
    rintro _ _ ⟨_, _, _, _, -, -, -, rfl, rfl⟩
    constructor <;> simp only [List.length_append, List.length_cons] <;> omega
  calls := by
    rintro _ _ ⟨a, b, right, other, next, rest, is, rfl, rfl⟩ p q
    have whole := Expr.interchangeable_of_headChange change
      (by simpa [List.getLast?_reverse] using starts) (company a right.reverse is)
      (.cons next (List.forall₂_reverse_iff.mpr rest)) p q
    simpa using whole

def Lexeme.startsItem : Lexeme → Bool
  | .bracket symbol => isOpening symbol
  | .newline => false
  | lexeme => !lexeme.isOperator

namespace Parsing

/-- The parser is where the head of a group stands: in a call or on a line, with nothing in front or
an operator. -/
structure AtHead (state : Parsing) : Prop where
  call : state.InCall
  starts : ∀ e ∈ state.row.head?, e.operator?.isSome = true

/-- Whether a word that is the head of a group is made a call because it stands alone, given what
the next token says. A bracket makes a call already. -/
def standsAlone (state : Parsing) (next : Option Lexeme) : Bool :=
  !next.any Lexeme.startsItem &&
    match state.row with
    | [] => state.forms.isEmpty || next.any Lexeme.isOperator
    | before :: _ => before.operator? == some ";"

variable {state : Parsing} {head headToo : Expr} {next : Option Lexeme}

theorem company_of_item (starts : next.any Lexeme.startsItem = true) (e : Expr)
    (item : e.operator?.isSome = false) (rest : List Expr) :
    Expr.Company (state.standsAlone next) state.row.reverse (e :: rest) := by
  have several : state.standsAlone next = false := by simp [standsAlone, starts]
  rw [several]
  exact .inr (.inl ⟨e, rfl, by simpa using item⟩)

theorem company_behind {before : Expr} {others : List Expr} (row : state.row = before :: others)
    (ends : next.any Lexeme.startsItem = false) {right : List Expr}
    (rest : (∃ e ∈ right.head?, e.operator?.isSome = true) ∨ right = []) :
    Expr.Company (state.standsAlone next) state.row.reverse right := by
  have alone : state.standsAlone next = (before.operator? == some ";") := by
    simp [standsAlone, ends, row]
  have last : (state.row.reverse).getLast? = some before := by simp [row]
  have filled : state.row.reverse ≠ [] := by simp [row]
  rw [alone, Expr.Company, last]
  cases sequence : before.operator? == some ";" with
  | true =>
      have is := beq_iff_eq.mp sequence
      exact ⟨by rintro _ ⟨⟩; exact is, rest.imp id fun nothing => ⟨filled, nothing⟩⟩
  | false => exact .inl ⟨before, rfl, by simpa using sequence⟩

theorem company_of_operator (is : next.any Lexeme.isOperator = true) (e : Expr)
    (operator : e.operator?.isSome = true) (rest : List Expr) :
    Expr.Company (state.standsAlone next) state.row.reverse (e :: rest) := by
  obtain ⟨lexeme, rfl, is⟩ : ∃ lexeme, next = some lexeme ∧ lexeme.isOperator = true := by
    cases next with
    | none => cases is
    | some lexeme => exact ⟨lexeme, rfl, is⟩
  have ends : (some lexeme).any Lexeme.startsItem = false := by
    cases lexeme <;> simp_all [Lexeme.startsItem, Lexeme.isOperator]
  cases row : state.row with
  | nil =>
      have alone : state.standsAlone (some lexeme) = true := by
        simp_all [standsAlone]
      rw [alone]
      exact ⟨by rintro _ ⟨⟩, .inl ⟨e, rfl, operator⟩⟩
  | cons before others =>
      rw [← row]
      exact company_behind row ends (.inl ⟨e, rfl, operator⟩)

theorem company_of_end (ends : next.any Lexeme.startsItem = false)
    (plain : next.any Lexeme.isOperator = false) (inside : state.forms ≠ []) :
    Expr.Company (state.standsAlone next) state.row.reverse [] := by
  cases row : state.row with
  | nil =>
      have several : state.standsAlone next = false := by simp [standsAlone, row, inside, plain]
      rw [several]
      exact .inr (.inr ⟨rfl, rfl⟩)
  | cons before others =>
      rw [← row]
      exact company_behind row ends (.inr rfl)

theorem lineBeside_of_end (head' : state.AtHead) (ends : next.any Lexeme.startsItem = false)
    (outside : state.forms = [])
    (change : Expr.HeadChange head headToo (state.standsAlone next)) :
    LineBeside (head :: state.row) (headToo :: state.row) := by
  refine ⟨by simp, ?_⟩
  cases row : state.row with
  | nil =>
      have alone : state.standsAlone next = true := by simp [standsAlone, ends, row, outside]
      rw [alone] at change
      have word := change.word
      have long := change.long
      simp only [List.reverse_cons, List.reverse_nil, List.nil_append, Expr.statement, word, long,
        if_true, Bool.false_eq_true, if_false]
      exact Expr.interchangeable_of_single change _
  | cons before others =>
      have company : Expr.Company _ _ [] := company_behind row ends (.inr rfl)
      have starts : ∀ e ∈ state.row.reverse.getLast?, e.operator?.isSome = true := by
        simpa [List.getLast?_reverse] using head'.starts
      have whole := Expr.interchangeable_of_headChange change starts company .nil
      rw [row] at whole
      rw [statement_of_long (by simp), statement_of_long (by simp)]
      simpa using whole _ _

/-! ## The token behind the head -/

theorem isSome_operator?_of_leaf? {lexeme : Lexeme} {place : Location} {e : Expr}
    (leaf : lexeme.leaf? place = some e) : e.operator?.isSome = lexeme.isOperator := by
  cases lexeme <;> cases leaf <;>
    simp [Expr.operator?, Expr.bareWord?, Lexeme.isOperator, Option.isSome_filter]

theorem exists_beside_of_leaf (at_ : state.AtHead) {lexeme : Lexeme}
    (change : Expr.HeadChange head headToo (state.standsAlone (some lexeme))) {p q : Location}
    {a b : Expr} (leaf : lexeme.leaf? p = some a) (leafToo : lexeme.leaf? q = some b) :
    ∃ heads : HeadRows, Beside heads ((state.add head).add a) ((state.add headToo).add b) := by
  have is := isSome_operator?_of_leaf? leaf
  have alike : Interchangeable a b := Expr.interchangeable_of_placeless
    (by cases lexeme <;> cases leaf <;> cases leafToo <;> rfl)
  have company : ∀ e rest, e.operator?.isSome = lexeme.isOperator →
      Expr.Company (state.standsAlone (some lexeme)) state.row.reverse (e :: rest) := by
    intro e rest same
    cases operator : lexeme.isOperator with
    | true =>
        have next : (some lexeme).any Lexeme.isOperator = true := operator
        exact company_of_operator next e (same.trans operator) rest
    | false =>
        refine company_of_item ?_ e (same.trans operator) rest
        cases lexeme <;> cases leaf <;> simpa [Lexeme.startsItem] using operator
  refine ⟨headRows head headToo _ _ _ change at_.starts company,
    ((Around.refl state).add head headToo).add a b, ?_⟩
  rw [row_add, row_add, row_add, row_add, inCall_add, inCall_add]
  exact .inr ⟨at_.call, a, b, [], [], alike, .nil, is, rfl, rfl⟩

theorem exists_beside_of_opening (at_ : state.AtHead) {opener : Char}
    (opening : isOpening opener = true)
    (change : Expr.HeadChange head headToo (state.standsAlone (some (.bracket opener))))
    (p q : Location) :
    ∃ heads : HeadRows, Agree (Beside heads) ((state.add head).step ⟨.bracket opener, p⟩)
      ((state.add headToo).step ⟨.bracket opener, q⟩) := by
  have company : ∀ e rest, e.operator?.isSome = false →
      Expr.Company (state.standsAlone (some (.bracket opener))) state.row.reverse (e :: rest) :=
    fun e rest item => company_of_item (by simpa [Lexeme.startsItem] using opening) e item rest
  refine ⟨headRows head headToo _ _ _ change at_.starts company, ?_⟩
  rw [step_opening _ opening, step_opening _ opening]
  refine .ok (((Around.refl state).add head headToo).opened ?_ opener p q)
  rw [row_add, row_add, inCall_add]
  exact .inr ⟨at_.call, rfl, rfl, rfl⟩

theorem agree_of_closing (at_ : state.AtHead) {symbol : Char} (closing : isOpening symbol = false)
    (change : Expr.HeadChange head headToo (state.standsAlone (some (.bracket symbol))))
    (p q : Location) :
    Agree (Beside .none) ((state.add head).step ⟨.bracket symbol, p⟩)
      ((state.add headToo).step ⟨.bracket symbol, q⟩) := by
  show Agree _ ((state.add head).bracket p symbol) ((state.add headToo).bracket q symbol)
  have noOpening : ¬(symbol = '(' ∨ symbol = '[' ∨ symbol = '{') := fun is => by
    simp [isOpening_iff.mpr is] at closing
  have ends : (some (Lexeme.bracket symbol)).any Lexeme.startsItem = false := by
    simpa [Lexeme.startsItem] using closing
  unfold Parsing.bracket
  rw [if_neg noOpening, if_neg noOpening]
  obtain ⟨forms, line, lines⟩ := state
  cases forms with
  | nil => exact .error _ _
  | cons form outer =>
      obtain ⟨opener, place, items⟩ := form
      obtain rfl : opener = '(' := at_.call _ rfl
      have adds : ∀ e, add ⟨⟨'(', place, items⟩ :: outer, line, lines⟩ e =
          ⟨⟨'(', place, e :: items⟩ :: outer, line, lines⟩ := fun _ => rfl
      rw [adds, adds]
      dsimp only
      split
      · have company : Expr.Company (standsAlone ⟨⟨'(', place, items⟩ :: outer, line, lines⟩ _)
            items.reverse [] := company_of_end ends rfl (List.cons_ne_nil _ _)
        have starts : ∀ e ∈ items.reverse.getLast?, e.operator?.isSome = true := by
          simpa [List.getLast?_reverse, row] using at_.starts
        have whole := Expr.interchangeable_of_headChange change starts company .nil place place
        have closes : ∀ e, OpenForm.close ⟨'(', place, e :: items⟩ =
            .ok (.call place (items.reverse ++ [e])) := by
          intro e
          simp [OpenForm.close]
        rw [closes, closes]
        exact .ok ((Around.refl _).addForm (waiting_refl _ _) whole rfl)
      · exact .error _ _

theorem exists_beside_of_head (at_ : state.AtHead) {token other : Token}
    (same : token.lexeme = other.lexeme)
    (change : Expr.HeadChange head headToo (state.standsAlone (some token.lexeme))) :
    ∃ heads : HeadRows, Agree (Beside heads) ((state.add head).step token)
      ((state.add headToo).step other) := by
  obtain ⟨lexeme, p⟩ := token
  obtain ⟨_, q⟩ := other
  obtain rfl : lexeme = _ := same
  -- An item settles that the group has several; a closing bracket and a new line end the row.
  cases lexeme with
  | bracket symbol =>
      cases opening : isOpening symbol with
      | true => exact exists_beside_of_opening at_ opening change p q
      | false => exact ⟨.none, agree_of_closing at_ opening change p q⟩
  | newline =>
      refine ⟨.none, ?_⟩
      obtain ⟨forms, line, lines⟩ := state
      cases forms with
      | nil =>
          have ends : (some Lexeme.newline).any Lexeme.startsItem = false := rfl
          have last := lineBeside_of_end at_ ends rfl change
          exact .ok ⟨.outside (.cons last (Expr.forall₂_refl LineBeside.refl lines)), .inl .nil⟩
      | cons form outer => exact .error _ _
  | _ =>
      obtain ⟨heads, beside⟩ := exists_beside_of_leaf at_ change (p := p) (q := q) rfl rfl
      exact ⟨heads, .ok beside⟩

/-! ## The statement -/

/-- Behind a head and what stands for it, tokens that say the same give trees that may be
interchanged. -/
theorem parse_of_head (at_ : state.AtHead) {tokens others : List Token}
    (said : Token.lexemes tokens = Token.lexemes others)
    (change : Expr.HeadChange head headToo (state.standsAlone (Token.lexemes tokens).head?))
    (limit : Nat) (p q : Location) :
    Agree (Option.Rel Interchangeable)
      (tokens.foldlM (stepWithin limit) (state.add head) >>= fun after => Expr.ofParsing after p)
      (others.foldlM (stepWithin limit) (state.add headToo) >>=
        fun after => Expr.ofParsing after q) := by
  -- The next token settles the company of the head; behind it both runs stand beside each other.
  cases tokens with
  | nil =>
      rw [List.map_eq_nil_iff.mp said.symm]
      obtain ⟨forms, line, lines⟩ := state
      cases forms with
      | nil =>
          have last := lineBeside_of_end at_ rfl rfl change
          exact Expr.ofParsing_lines last (Expr.forall₂_refl LineBeside.refl lines) p q
      | cons form outer => exact .error _ _
  | cons token rest =>
      obtain ⟨other, behind, rfl, same, behindSaid⟩ := List.map_eq_cons_iff.mp said.symm
      obtain ⟨heads, step⟩ := exists_beside_of_head at_ same.symm change
      rw [List.foldlM_cons, List.foldlM_cons, bind_assoc, bind_assoc]
      have within : Agree (Beside heads) ((state.add head).stepWithin limit token)
          ((state.add headToo).stepWithin limit other) := by
        refine step.bind fun after otherAfter beside => ?_
        rw [beside.around.length_eq]
        split
        · exact .error _ _
        · exact .ok beside
      exact within.bind fun after otherAfter beside =>
        Expr.parse_of_beside beside behindSaid.symm limit p q

end Parsing
end ShellLisp
