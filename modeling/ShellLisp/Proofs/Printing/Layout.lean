import ShellLisp.Expr.Layout
import ShellLisp.Proofs.Reading.Alike
import ShellLisp.Proofs.Reading.Scans

/-!
# Layout of printed trees

A tree that is printed without colours, and is not too deep to be printed whole, differs from its
written form in line breaks only. A form that fits its line has items that fit theirs, so it is
printed as it is written; in a form that does not, the line breaks are inside brackets, where the
lexer does not see them.
-/

namespace ShellLisp
open Text

/-! ## Bounds on integers -/

theorem orderInt_eq_lt {n m : Int} : Binary64.orderInt n m = .lt ↔ n < m := by
  unfold Binary64.orderInt
  split
  · simpa
  · split <;> simp <;> omega

theorem orderInt_eq_gt {n m : Int} : Binary64.orderInt n m = .gt ↔ m < n := by
  unfold Binary64.orderInt
  split
  · simp
    omega
  · split <;> simp <;> omega

namespace Number

theorem view_int (n : Int) : Binary64.signed (n < 0) n.natAbs = n := by
  simp only [Binary64.signed, decide_eq_true_eq]
  split <;> omega

theorem order?_int (bound : Number) :
    (∃ answer : Option Ordering, ∀ n : Int,
        (int n).order? bound = answer ∧ bound.order? (int n) = answer.map Ordering.swap) ∨
      ∃ unit level : Int, 0 < unit ∧ ∀ n : Int,
        (int n).order? bound = some (Binary64.orderInt (n * unit) level) ∧
          bound.order? (int n) = some (Binary64.orderInt level (n * unit)) := by
  cases bound with
  | int m => exact .inr ⟨1, m, one_pos, fun n => by simp [order?]⟩
  | float x =>
      have ordered : ∀ n : Int, (int n).order? (float x) =
            (Binary64.ofInt n).order? (Binary64.ofFloat x) ∧
          (float x).order? (int n) = (Binary64.ofFloat x).order? (Binary64.ofInt n) :=
        fun n => ⟨rfl, rfl⟩
      simp only [ordered]
      cases Binary64.ofFloat x with
      | nan => exact .inl ⟨none, fun n => ⟨rfl, rfl⟩⟩
      | infinite negative =>
          cases negative
          · exact .inl ⟨some .lt, fun n => ⟨rfl, rfl⟩⟩
          · exact .inl ⟨some .gt, fun n => ⟨rfl, rfl⟩⟩
      | finite negative mantissa exponent =>
          refine .inr ?_
          simp only [Binary64.order?, Binary64.ofInt, Binary64.balance, view_int]
          rcases lt_trichotomy exponent 0 with below | rfl | above
          · refine ⟨twoTo (-exponent).toNat, Binary64.signed negative mantissa,
              Int.natCast_pos.mpr (twoTo_pos _), fun n => ?_⟩
            rw [if_pos (by omega), if_neg (by omega), zero_sub, sub_zero]
            exact ⟨rfl, rfl⟩
          · exact ⟨1, Binary64.signed negative mantissa, one_pos, fun n => by simp [twoTo]⟩
          · refine ⟨1, Binary64.signed negative mantissa * twoTo exponent.toNat, one_pos,
              fun n => ?_⟩
            rw [if_neg (by omega), if_pos (by omega), zero_sub, sub_zero, neg_neg, mul_one]
            exact ⟨rfl, rfl⟩

theorem lessOrEqual_iff {a b : Number} :
    a.lessOrEqual b = true ↔ a.order? b = some .lt ∨ a.order? b = some .eq := by
  simp [lessOrEqual, less, equal]

theorem lessOrEqual_of_le {n m : Int} {bound : Number} (smaller : n ≤ m)
    (admitted : (int m).lessOrEqual bound = true) : (int n).lessOrEqual bound = true := by
  rw [lessOrEqual_iff] at admitted ⊢
  rcases order?_int bound with ⟨answer, same⟩ | ⟨unit, level, positive, scaled⟩
  · rwa [(same m).1, ← (same n).1] at admitted
  · have grows : n * unit ≤ m * unit := Int.mul_le_mul_of_nonneg_right smaller positive.le
    have notAbove : ¬level < m * unit := fun above => by
      rw [(scaled m).1, orderInt_eq_gt.mpr above] at admitted
      simp at admitted
    rw [(scaled n).1]
    cases order : Binary64.orderInt (n * unit) level with
    | lt => exact .inl rfl
    | eq => exact .inr rfl
    | gt => exact absurd (lt_of_lt_of_le (orderInt_eq_gt.mp order) grows) notAbove

theorem not_lessOrEqual_of_less {n m : Int} {bound : Number} (smaller : n ≤ m)
    (below : (int m).less bound = true) : bound.lessOrEqual (int n) = false := by
  have under : (int m).order? bound = some .lt := by simpa [less] using below
  rw [Bool.eq_false_iff, ne_eq, lessOrEqual_iff]
  rcases order?_int bound with ⟨answer, same⟩ | ⟨unit, level, positive, scaled⟩
  · rw [(same n).2, ← (same m).1, under]
    simp
  · have grows : n * unit ≤ m * unit := Int.mul_le_mul_of_nonneg_right smaller positive.le
    have above : n * unit < level := by
      rw [(scaled m).1, Option.some.injEq, orderInt_eq_lt] at under
      omega
    rw [(scaled n).2, orderInt_eq_gt.mpr above]
    simp

end Number

/-! ## Lexing laid-out trees -/

/-- What may stand behind an item of a laid-out form. -/
def EndsItem (rest : List Char) : Prop := Ends rest ∨ rest.head? = some '\n'

theorem EndsItem.closing {closer : Char} (closing : isClosing closer = true) (rest : List Char) :
    EndsItem (closer :: rest) := by
  refine .inl ?_
  rintro c ⟨⟩
  exact .inr closing

theorem Says.item {depth : Nat} {chars rest : List Char} {lexeme : Lexeme} {lexemes : List Lexeme}
    (spells : Spells chars lexeme) (ends : EndsItem rest) (later : Says depth rest lexemes) :
    Says depth (chars ++ rest) (lexeme :: lexemes) := by
  rcases ends with plain | newline
  · exact .leaf spells plain later
  · obtain ⟨c, more, rfl, first⟩ := spells
    have alike : SameLook [] rest := fun x head =>
      .inr (Option.some.inj (head.symm.trans newline))
    refine Says.cons ⟨more.length, some lexeme, depth⟩ (fun place => ?_) ?_
    · exact Cut.first_of_sameLook (first place depth [] ends_nil) rfl alike
    · have behind : (more ++ rest).drop more.length = rest := List.drop_left
      exact behind.symm ▸ later

theorem Says.newline {depth : Nat} {rest : List Char} {lexemes : List Lexeme}
    (later : Says (depth + 1) rest lexemes) : Says (depth + 1) ('\n' :: rest) lexemes :=
  Says.cons ⟨0, none, depth + 1⟩ (fun _ => rfl) later

/-- What is written between two items of a form: a space, or a line break and an indent. -/
inductive Gap : List Char → Prop
  | space : Gap [' ']
  | line (indent : Nat) : Gap ('\n' :: List.replicate indent ' ')

theorem Gap.endsItem {gap : List Char} (is : Gap gap) (rest : List Char) :
    EndsItem (gap ++ rest) := by
  cases is with
  | space => exact .inl fun c head => .inl (Option.some.inj head).symm
  | line indent => exact .inr rfl

theorem Gap.silent {gap : List Char} (is : Gap gap) {depth : Nat} {rest : List Char}
    {lexemes : List Lexeme} (later : Says (depth + 1) rest lexemes) :
    Says (depth + 1) (gap ++ rest) lexemes := by
  cases is with
  | space => exact later.space
  | line indent =>
      refine Says.newline ?_
      induction indent with
      | zero => exact later
      | succ count ih => exact ih.space

namespace Expr

/-- A text that is lexed as a tree wherever an item of a form may stand. -/
def Prints (chars : List Char) (e : Expr) : Prop :=
  ∀ ⦃depth : Nat⦄ ⦃rest : List Char⦄ ⦃lexemes : List Lexeme⦄, EndsItem rest →
    Says depth rest lexemes → Says depth (chars ++ rest) (e.lexemes ++ lexemes)

theorem says_joined {gap : List Char} (is : Gap gap) {parts : List (List Char)} {body : List Expr}
    (each : List.Forall₂ Prints parts body) {depth : Nat} {rest : List Char}
    {lexemes : List Lexeme} (ends : EndsItem rest) (later : Says (depth + 1) rest lexemes) :
    Says (depth + 1) (gap.intercalate parts ++ rest) (lexemesAll body ++ lexemes) := by
  induction each with
  | nil => exact later
  | @cons part e others items first tail ih =>
      cases tail with
      | nil => simpa [lexemesAll] using first ends later
      | cons second further =>
          rw [List.intercalate_cons_cons, lexemesAll, List.append_assoc, List.append_assoc,
            List.append_assoc]
          exact first (is.endsItem _) (is.silent ih)

theorem prints_form {opener closer : Char} (opening : isOpening opener = true)
    (closing : isClosing closer = true) {gap : List Char} (is : Gap gap)
    {parts : List (List Char)} {body : List Expr} (each : List.Forall₂ Prints parts body)
    {e : Expr} (form : e.lexemes = .bracket opener :: (lexemesAll body ++ [.bracket closer])) :
    Prints (opener :: gap.intercalate parts ++ [closer]) e := by
  intro depth rest lexemes _ later
  have inside := says_joined is each (.closing closing rest) (later.closing closing)
  rw [form]
  simpa using inside.opening opening

/-! ## Lines -/

theorem count_newline_joined {gap : List Char} (broken : '\n' ∈ gap) (parts : List (List Char)) :
    parts.length ≤ (gap.intercalate parts).count '\n' + 1 := by
  induction parts with
  | nil => exact Nat.zero_le _
  | cons part rest ih =>
      cases rest with
      | nil => simp
      | cons next others =>
          have inGap := List.count_pos_iff.mpr broken
          simp only [List.intercalate_cons_cons, List.count_append, List.length_cons] at ih ⊢
          omega

theorem toList_pushn (text : String) (c : Char) (count : Nat) :
    (text.pushn c count).toList = text.toList ++ List.replicate count c := by
  induction count with
  | zero => simp [String.pushn, Nat.repeat]
  | succ count ih =>
      simp only [String.pushn, Nat.repeat] at ih ⊢
      rw [String.toList_push, ih, List.replicate_succ', List.append_assoc]

def gap (indent : Int) (oneLine : Bool) : List Char :=
  if oneLine then [' '] else '\n' :: List.replicate (2 * indent.toNat + 2) ' '

theorem gap_is (indent : Int) (oneLine : Bool) : Gap (gap indent oneLine) := by
  cases oneLine
  · exact .line _
  · exact .space

theorem toList_arrange (opening closing : String) (indent : Int) (oneLine : Bool)
    (parts : List String) :
    (arrange opening closing indent oneLine parts).toList =
      opening.toList ++ (gap indent oneLine).intercalate (parts.map String.toList) ++
        closing.toList := by
  have line : ("\n" ++ padding indent ++ "  ").toList = gap indent false := by
    simp [padding, toList_pushn, gap, List.replicate_succ', List.append_assoc]
  cases oneLine
  · simp [arrange, String.toList_intercalate, ← line]
  · simp [arrange, String.toList_intercalate, gap]

/-! ## Forms that fit -/

def items : Expr → List Expr
  | .call _ body => body
  | .array _ body => body
  | .map _ body => body
  | _ => []

def Fits (width : Number) (indent : Int) (e : Expr) : Prop :=
  (Number.int (e.text.length + 2 * indent)).lessOrEqual width = true

theorem restChars_eq_flatMap (body : List Expr) :
    restChars body = body.flatMap fun e => ' ' :: e.chars := by
  induction body with
  | nil => rfl
  | cons e rest ih => rw [restChars, ih, List.flatMap_cons, List.cons_append]

theorem intercalate_chars (body : List Expr) : [' '].intercalate (body.map chars) = bodyChars body := by
  have tail : bodyChars body = (restChars body).tail := by cases body <;> rfl
  rw [tail, restChars_eq_flatMap, intercalate_space, List.flatMap_map]

theorem length_chars_le {e : Expr} {body : List Expr} (member : e ∈ body) :
    e.chars.length ≤ (bodyChars body).length := by
  have inRest : ∀ rest : List Expr, e ∈ rest → e.chars.length ≤ (restChars rest).length := by
    intro rest among
    induction rest with
    | nil => cases among
    | cons first others ih =>
        simp only [restChars, List.length_cons, List.length_append]
        rcases List.mem_cons.mp among with rfl | later
        · omega
        · have := ih later
          omega
  cases body with
  | nil => cases member
  | cons first others =>
      rw [bodyChars, List.length_append]
      rcases List.mem_cons.mp member with rfl | later
      · omega
      · have := inRest others later
        omega

theorem fits_item {width : Number} {indent : Int} {e item : Expr} {opener closer : Char}
    (shape : e.chars = opener :: bodyChars e.items ++ [closer]) (fits : e.Fits width indent)
    (member : item ∈ e.items) : item.Fits width (indent + 1) := by
  refine Number.lessOrEqual_of_le ?_ fits
  have shorter := length_chars_le member
  have whole : e.chars.length = (bodyChars e.items).length + 2 := by simp [shape]
  simp only [text, String.length_ofList]
  omega

/-! ## Printing whole trees -/

/-- A text that an expression is printed as, at a level of indentation. -/
structure Laid (width : Number) (indent : Int) (printed : String) (e : Expr) : Prop where
  prints : Prints printed.toList e
  whole : e.Fits width indent → printed = e.text
  broken : ¬e.Fits width indent → e.items.length ≤ printed.toList.count '\n' + 1

theorem eq_map_of_forall₂ {α β : Type} {relation : α → β → Prop} {change : β → α}
    {first : List α} {second : List β} (each : List.Forall₂ relation first second)
    (makes : ∀ a, ∀ b ∈ second, relation a b → a = change b) : first = second.map change := by
  induction each with
  | nil => rfl
  | cons head _ ih =>
      rw [List.map_cons, makes _ _ (by simp) head, ih fun a b member => makes a b (by simp [member])]

theorem laid_form {width : Number} {indent : Int} {e : Expr} {opening closing : String}
    {opener closer : Char} (opens : opening.toList = [opener]) (closes : closing.toList = [closer])
    (isOpener : isOpening opener = true) (isCloser : isClosing closer = true)
    (shape : e.chars = opener :: bodyChars e.items ++ [closer])
    (form : e.lexemes = .bracket opener :: (lexemesAll e.items ++ [.bracket closer]))
    {parts : List String} (each : List.Forall₂ (Laid width (indent + 1)) parts e.items) :
    Laid width indent (arrange opening closing indent
      ((Number.int (e.chars.length + 2 * indent)).lessOrEqual width) parts) e := by
  generalize decision : (Number.int (e.chars.length + 2 * indent)).lessOrEqual width = oneLine
  have fits : e.Fits width indent ↔ oneLine = true := by
    rw [Fits, text, String.length_ofList, decision]
  refine ⟨?_, fun fit => ?_, fun wide => ?_⟩
  · have printed : List.Forall₂ Prints (parts.map String.toList) e.items :=
      List.forall₂_map_left_iff.mpr (each.imp fun _ _ laid => laid.prints)
    rw [toList_arrange, opens, closes]
    exact prints_form isOpener isCloser (gap_is indent oneLine) printed form
  · have written : parts = e.items.map text :=
      eq_map_of_forall₂ each fun part item member laid => laid.whole (fits_item shape fit member)
    have plain : String.toList ∘ text = chars := funext fun item => by simp [text]
    refine String.toList_inj.mp ?_
    rw [toList_arrange, opens, closes, fits.mp fit, written, List.map_map, plain, text,
      String.toList_ofList, shape, ← intercalate_chars]
    rfl
  · have broken : oneLine = false := by simpa [fits] using wide
    have breaks : '\n' ∈ gap indent oneLine := by simp [broken, gap]
    have lines := count_newline_joined breaks (parts.map String.toList)
    rw [List.length_map, each.length_eq] at lines
    rw [toList_arrange, List.count_append, List.count_append]
    omega

theorem layoutForm_eq {style : Style} {width : Number} (plain : style.colour = false)
    (wide : style.width = .number width) {indent : Int} {depth : Nat} {opening closing : String}
    {length : Nat} {items : Unit → Except Fault (List String)} {parts : List String}
    (clear : style.depth.reachedBy depth = .ok false) (done : items () = .ok parts) :
    layoutForm style indent depth opening closing length items = .ok (arrange opening closing indent
      ((Number.int (length + 2 * indent)).lessOrEqual width) parts) := by
  have fits : style.width.admits (length + 2 * indent) =
      .ok ((Number.int (length + 2 * indent)).lessOrEqual width) := by rw [wide, Bound.admits]
  cases parts with
  | nil =>
      have empty : ∀ oneLine, arrange opening closing indent oneLine [] = opening ++ closing := by
        intro oneLine
        cases oneLine <;> simp [arrange]
      simp [layoutForm, plain, clear, done, empty, bind, Except.bind, pure, Except.pure]
  | cons part rest =>
      simp [layoutForm, plain, clear, done, fits, bind, Except.bind, pure, Except.pure]

theorem exists_layoutAll {style : Style} {indent : Int} {depth : Nat} {body : List Expr}
    {relation : String → Expr → Prop}
    (each : ∀ e ∈ body, ∃ printed, e.layout style indent depth = .ok printed ∧ relation printed e) :
    ∃ parts, layoutAll style indent depth body = .ok parts ∧
      List.Forall₂ relation parts body := by
  induction body with
  | nil => exact ⟨[], rfl, .nil⟩
  | cons e rest ih =>
      obtain ⟨printed, first, related⟩ := each e (by simp)
      obtain ⟨parts, others, all⟩ := ih fun x member => each x (by simp [member])
      refine ⟨printed :: parts, ?_, .cons related all⟩
      rw [layoutAll, first, others]
      rfl

section
variable {style : Style} {width : Number} (plain : style.colour = false)
  (wide : style.width = .number width) {indent : Int} {depth : Nat}
include plain

theorem exists_layoutLeaf {e : Expr} (clear : style.depth.reachedBy depth = .ok false)
    (single : e.items = []) (prints : Prints e.chars e) :
    ∃ printed, layoutLeaf style indent depth e = .ok printed ∧ Laid width indent printed e := by
  refine ⟨e.text, ?_, ⟨by simpa [text] using prints, fun _ => rfl, fun _ => by simp [single]⟩⟩
  simp [layoutLeaf, clear, plain, leafText, bind, Except.bind, pure, Except.pure]

include wide

theorem exists_layoutForm {e : Expr} {opening closing : String} {opener closer : Char}
    (opens : opening.toList = [opener]) (closes : closing.toList = [closer])
    (isOpener : isOpening opener = true) (isCloser : isClosing closer = true)
    (shape : e.chars = opener :: bodyChars e.items ++ [closer])
    (form : e.lexemes = .bracket opener :: (lexemesAll e.items ++ [.bracket closer]))
    (clear : ∀ reached < depth + (heightAll e.items + 1), style.depth.reachedBy reached = .ok false)
    (each : ∀ item ∈ e.items,
      (∀ reached < depth + 1 + item.height, style.depth.reachedBy reached = .ok false) →
      ∃ printed, item.layout style (indent + 1) (depth + 1) = .ok printed ∧
        Laid width (indent + 1) printed item) :
    ∃ printed, layoutForm style indent depth opening closing e.chars.length
        (fun _ => layoutAll style (indent + 1) (depth + 1) e.items) = .ok printed ∧
      Laid width indent printed e := by
  obtain ⟨parts, done, laid⟩ := exists_layoutAll fun item member =>
    each item member fun reached below =>
      clear reached (by have := height_le_of_mem member; omega)
  exact ⟨_, layoutForm_eq plain wide (clear depth (by omega)) done,
    laid_form opens closes isOpener isCloser shape form laid⟩

theorem exists_layout {e : Expr} (spelled : e.Everywhere LeafSpelled)
    (clear : ∀ reached < depth + e.height, style.depth.reachedBy reached = .ok false) :
    ∃ printed, e.layout style indent depth = .ok printed ∧ Laid width indent printed e := by
  induction e using Expr.induction generalizing indent depth with
  | call place body ih =>
      obtain ⟨-, below⟩ := everywhere_call.mp spelled
      exact exists_layoutForm plain wide (e := .call place body) rfl rfl rfl rfl rfl rfl clear
        fun item member => ih item member (below item member)
  | array place body ih =>
      obtain ⟨-, below⟩ := everywhere_array.mp spelled
      exact exists_layoutForm plain wide (e := .array place body) rfl rfl rfl rfl rfl rfl clear
        fun item member => ih item member (below item member)
  | map place body ih =>
      obtain ⟨-, below⟩ := everywhere_map.mp spelled
      exact exists_layoutForm plain wide (e := .map place body) rfl rfl rfl rfl rfl rfl clear
        fun item member => ih item member (below item member)
  | value place literal =>
      exact exists_layoutLeaf plain (clear depth (by simp [height])) rfl fun _ _ _ =>
        .item (everywhere_value.mp spelled)
  | command place name =>
      exact exists_layoutLeaf plain (clear depth (by simp [height])) rfl fun _ _ _ =>
        .item (everywhere_command.mp spelled)
  | reference place name =>
      exact exists_layoutLeaf plain (clear depth (by simp [height])) rfl fun _ _ _ =>
        .item (everywhere_variable.mp spelled)

end

/-! ## The statement -/

theorem legible_of_reading {source : String} {tree : Expr}
    (obtained : ofSource source = .ok (some tree) ∨ read source = .ok (some tree)) :
    tree.Everywhere Legible ∧ tree.isBareWord = false := by
  rcases obtained with parsed | done
  · exact legible_of_ofSource parsed
  · obtain ⟨parsed, parsing, desugared⟩ := exists_of_read done
    obtain ⟨legible, long⟩ := legible_of_ofSource parsing
    exact ⟨legible_desugar legible desugared, isBareWord_desugar long desugared⟩

/-- A tree that was parsed or read is printed without colours as its written form but for line
breaks, as long as the depth that is printed lies below its deepest node: the same is lexed, the
same is read, and when the written form fits the line, it is what is printed; when it does not, the
items of a form stand on lines of their own. -/
theorem layout_eq_text_but_for_lines {source : String} {tree : Expr}
    (obtained : ofSource source = .ok (some tree) ∨ read source = .ok (some tree))
    {depth : Number} (shallow : (Number.int (tree.height - 1)).less depth = true)
    (width : Number) (legend : Bool) (indent : Int) :
    ∃ printed,
      tree.layout ⟨.number width, .number depth, legend, false⟩ indent 0 = .ok printed ∧
      (∃ tokens again, Token.lex tree.text = .ok tokens ∧ Token.lex printed = .ok again ∧
        Token.lexemes again = Token.lexemes tokens) ∧
      SameReading (ofSource printed) (ofSource tree.text) ∧
      SameReading (read printed) (read tree.text) ∧
      if (Number.int (tree.text.length + 2 * indent)).lessOrEqual width then printed = tree.text
      else tree.items.length ≤ printed.toList.count '\n' + 1 := by
  obtain ⟨legible, long⟩ := legible_of_reading obtained
  have spelled : tree.Everywhere LeafSpelled := fun node below => (legible node below).spelled
  have clear : ∀ reached < 0 + tree.height,
      (Bound.number depth).reachedBy reached = .ok false := fun reached below => by
    rw [Bound.reachedBy, Number.not_lessOrEqual_of_less (by omega) shallow]
  let style : Style := ⟨.number width, .number depth, legend, false⟩
  obtain ⟨printed, done, laid⟩ : ∃ printed, tree.layout style indent 0 = .ok printed ∧
      Laid width indent printed tree := exists_layout rfl rfl spelled clear
  obtain ⟨tokens, lexed, said⟩ := lex_text spelled
  have spoken := laid.prints (.inl ends_nil) (.nil 0)
  rw [List.append_nil, List.append_nil] at spoken
  obtain ⟨again, lexedAgain, saidAgain⟩ := lex_of_says spoken tree.noNewline_lexemes
  rw [String.ofList_toList] at lexedAgain
  have alike := outcome_ofSource_of_lexemes lexedAgain saidAgain lexed said legible long
  refine ⟨printed, done, ⟨tokens, again, lexed, lexedAgain, saidAgain.trans said.symm⟩,
    sameReading_ofSource alike, sameReading_read (outcome_read_of_ofSource alike), ?_⟩
  split
  · rename_i fits
    exact laid.whole fits
  · rename_i wide
    exact laid.broken wide

/-- A sum that is too long for its line is printed on three, and read from them. -/
theorem sum_laid_out :
    let sum : Expr := .call ⟨1, 1⟩ [.command ⟨1, 2⟩ "add", .value ⟨1, 6⟩ (.number (.int 1) "1"),
      .variable ⟨1, 8⟩ "x"]
    let style : Style := ⟨.number (.int 9), .number (.int 2), false, false⟩
    read "(add 1 $x)" = .ok (some sum) ∧
      sum.layout style 0 0 = .ok "(add\n  1\n  $x)" ∧
      SameReading (read "(add\n  1\n  $x)") (read sum.text) := by
  intro sum style
  have done : read "(add 1 $x)" = .ok (some sum) := by cbv
  have laid : sum.layout style 0 0 = .ok "(add\n  1\n  $x)" := by cbv
  have shallow : (Number.int (sum.height - 1)).less (.int 2) = true := by decide
  obtain ⟨printed, same, -, -, alike, -⟩ :=
    layout_eq_text_but_for_lines (.inr done) shallow (.int 9) false 0
  obtain rfl : printed = "(add\n  1\n  $x)" := Except.ok.inj (same.symm.trans laid)
  exact ⟨done, laid, alike⟩

end Expr
end ShellLisp
