import ShellLisp.Proofs.Members.Dotted
import ShellLisp.Proofs.Reading.Operands

/-!
# Texts with dotted names

The texts `(.a.b e)` and `(.a.b e v)` are read as the calls of `get` and `set` with the parts of the
path as quoted keys. In a text of any kind a variable `$h.a.b` may be exchanged for the call of
`get` on `$h`, and so may a word `h.a.b` at the head of a call.
-/

namespace ShellLisp
open Text
open ShellLisp.Expr (Interchangeable)

namespace Expr
variable {keys : List String} {head : String}

/-! ## The texts of member commands -/

theorem callText_texts (items : List Expr) :
    callText (items.map Expr.text) = (Expr.call .nowhere items).text := by
  have written : restChars items =
      (items.map Expr.text).flatMap fun part => ' ' :: part.toList := by
    induction items with
    | nil => rfl
    | cons e rest ih =>
        rw [restChars, ih, List.map_cons, List.flatMap_cons, Expr.text, String.toList_ofList]
        rfl
  rw [← String.toList_inj, callText, String.toList_append, String.toList_append,
    joined_eq_bodyChars written]
  simp [Expr.text, chars]

theorem nestingAll_keys (rest : List Expr) :
    nestingAll (keyTexts keys ++ rest) = nestingAll rest := by
  induction keys with
  | nil => rfl
  | cons key others ih =>
      rw [keyTexts, List.map_cons, List.cons_append, nestingAll, ← keyTexts, ih]
      exact Nat.zero_max _

theorem ofWord_dotted {name : String} (noNumber : Decimal.Numeral.read? name.toList = none)
    (noVariable : name.toList.head? ≠ some '$') (dot : '.' ∈ name.toList) :
    Lexeme.ofWord name.toList = .ok (.word name) := by
  have other : ∀ literal : String, '.' ∉ literal.toList → name ≠ literal := by
    rintro literal absent rfl
    exact absent dot
  unfold Lexeme.ofWord
  split
  · rename_i shape
    rw [shape] at noVariable
    exact absurd rfl noVariable
  · rw [noNumber]
    simp [other "true" (by decide), other "false" (by decide), other "null" (by decide)]

theorem legible_word {name : String} (spelled : Spells name.toList (.word name)) :
    (Expr.value .nowhere (.word name)).Everywhere Legible :=
  everywhere_value.mpr ⟨trivial, spelled, by simp [SelfSame, Literal.same]⟩

end Expr

/-! ## Operands -/

namespace IsItem
variable {source : String} {item : Expr} (is : IsItem source item)
include is

theorem legible : item.Everywhere Expr.Legible := (Expr.legible_of_ofSource is.parsed).1

theorem long : item.isBareWord = false := (Expr.legible_of_ofSource is.parsed).2

theorem operator?_shown : item.shown.operator? = none :=
  Expr.operator?_of_not_bareWord ((Expr.isBareWord_shown item).trans is.long)

theorem interchangeable_shown : Interchangeable item item.shown := by
  have noWord : ∀ e : Expr, e.isBareWord = false → e.bareWord? = none := fun e long => by
    rwa [Expr.isBareWord, Option.isSome_eq_false_iff, Option.isNone_iff_eq_none] at long
  refine Expr.interchangeable_of_withCommands ?_ ?_
  · rw [noWord _ is.long, noWord _ ((Expr.isBareWord_shown item).trans is.long)]
  · rw [Expr.withCommands_shown (Expr.placed_of_ofSource is.parsed), Expr.placeless_placeless]

theorem resolves_shown (reads : ∃ tree, Expr.read source = .ok (some tree)) :
    item.shown.Resolves := by
  obtain ⟨tree, reads⟩ := reads
  obtain ⟨parsed, parsing, done⟩ := Expr.exists_of_read reads
  obtain rfl : item = parsed :=
    Option.some.inj (Except.ok.inj (is.parsed.symm.trans parsing))
  exact (Expr.resolves_of_desugar done).of_interchangeable is.interchangeable_shown

end IsItem

/-- A source text that is read and is one item: a bracketed form, or a leaf that is no bare word. -/
structure IsOperand (source : String) : Prop where
  item : ∃ item, IsItem source item
  reads : ∃ tree, Expr.read source = .ok (some tree)

theorem exists_items {sources : List String} (each : ∀ source ∈ sources, IsOperand source) :
    ∃ items, List.Forall₂ IsItem sources items ∧ ∀ item ∈ items, item.shown.Resolves := by
  induction sources with
  | nil => exact ⟨[], .nil, nofun⟩
  | cons source rest ih =>
      obtain ⟨⟨⟨item, is⟩, reads⟩, later⟩ := List.forall_mem_cons.mp each
      obtain ⟨items, others, resolves⟩ := ih later
      exact ⟨item :: items, .cons is others,
        List.forall_mem_cons.mpr ⟨is.resolves_shown reads, resolves⟩⟩

theorem forall_items {sources : List String} {items : List Expr}
    (row : List.Forall₂ IsItem sources items) {p : Expr → Prop}
    (each : ∀ source item, IsItem source item → p item) : ∀ item ∈ items, p item := by
  induction row with
  | nil => exact nofun
  | cons is _ ih => exact List.forall_mem_cons.mpr ⟨each _ _ is, ih⟩

/-- Two texts that are read alike, of which the first is read unless it is too deep. -/
def ReadAlike (source other : String) : Prop :=
  Expr.SameReading (Expr.read source) (Expr.read other) ∧
    ((∃ tree, Expr.read source = .ok (some tree)) ∨ Expr.read source = .error .tooDeep)

theorem readAlike_of_interchangeable {source other : String} {a b : Expr}
    (parsed : Expr.ofSource source = .ok (some a))
    (otherParsed : Expr.ofSource other = .ok (some b))
    (alike : Interchangeable a b) (resolves : a.Resolves) : ReadAlike source other := by
  refine ⟨Expr.sameReading_of_agree (by rw [parsed, otherParsed]; exact .ok (.some alike)), ?_⟩
  rcases resolves.desugar with ⟨tree, done⟩ | deep
  · exact .inl ⟨tree, Expr.read_of_ofSource parsed done⟩
  · right
    rw [Expr.read, parsed]
    simp [bind, Except.bind, deep]

theorem readAlike_of_tooDeep {source other : String}
    (deep : Expr.ofSource source = .error .tooDeep)
    (otherDeep : Expr.ofSource other = .error .tooDeep) : ReadAlike source other := by
  have failed : ∀ text, Expr.ofSource text = .error .tooDeep → Expr.read text = .error .tooDeep :=
    fun text deep => by rw [Expr.read, deep]; rfl
  rw [ReadAlike, failed _ deep, failed _ otherDeep]
  exact ⟨trivial, .inr rfl⟩

theorem readAlike_callText {parts others : List String} {items otherItems : List Expr}
    (writes : Writes parts items) (otherWrites : Writes others otherItems)
    (nested : Expr.nestingAll items = Expr.nestingAll otherItems)
    (alike : Interchangeable (Expr.call .nowhere items).shown (Expr.call .nowhere otherItems).shown)
    (resolves : (Expr.call .nowhere items).shown.Resolves) :
    ReadAlike (callText parts) (callText others) := by
  have first := ofSource_callText writes
  have second := ofSource_callText otherWrites
  rw [← nested] at second
  split at first
  · rename_i shallow
    rw [if_pos shallow] at second
    obtain ⟨a, parsed, shown⟩ := first
    obtain ⟨b, otherParsed, otherShown⟩ := second
    have same : Interchangeable (Expr.call .nowhere items).shown a :=
      Expr.interchangeable_of_placeless (by rw [← shown, Expr.placeless_placeless])
    have otherSame : Interchangeable (Expr.call .nowhere otherItems).shown b :=
      Expr.interchangeable_of_placeless (by rw [← otherShown, Expr.placeless_placeless])
    exact readAlike_of_interchangeable parsed otherParsed ((same.symm.trans alike).trans otherSame)
      (resolves.of_interchangeable same)
  · rename_i deep
    rw [if_neg deep] at second
    exact readAlike_of_tooDeep first second

/-! ## Member commands -/

section
variable {keys : List String}

theorem spelled_of_legible {e : Expr} (legible : e.Everywhere Expr.Legible) :
    e.Everywhere Expr.LeafSpelled := fun node below => (legible node below).spelled

theorem saysInside_word {name : String} (spelled : Spells name.toList (.word name)) :
    SaysInside name [.word name] := by
  have written : SaysInside (Expr.command .nowhere name).text [.word name] :=
    saysInside_text (Expr.everywhere_command.mpr spelled)
  rwa [Expr.text, Expr.chars, String.ofList_toList] at written

theorem saysInside_keys :
    List.Forall₂ (fun part (item : Expr) => SaysInside part item.lexemes) (keys.map quote)
      (Expr.keyTexts keys) := by
  rw [Expr.keyTexts, List.forall₂_map_left_iff, List.forall₂_map_right_iff, List.forall₂_same]
  intro key _
  have written : SaysInside (Expr.ofText .nowhere key).text (Expr.ofText .nowhere key).lexemes :=
    saysInside_text (spelled_of_legible (Expr.legible_ofText .nowhere key))
  exact written

theorem spells_access (more : Nat) :
    Spells (Expr.accessName more).toList (.word (Expr.accessName more)) := by
  have function : Expr.accessName more = Expr.readMember ∨
      Expr.accessName more = Expr.writeMember := by
    rw [Expr.accessName]
    split
    · exact .inl rfl
    · exact .inr rfl
  exact (Expr.everywhere_command.mp (Expr.legible_member .nowhere function)).spelled

theorem spells_member (plain : ∀ key ∈ keys, IsSegment key)
    (noNumber : Decimal.Numeral.read? ("." ++ dotted keys).toList = none) :
    Spells ("." ++ dotted keys).toList (.word ("." ++ dotted keys)) := by
  have read := Expr.ofWord_dotted noNumber (by simp [String.toList_append])
    (by simp [String.toList_append])
  have shape : ("." ++ dotted keys).toList = '.' :: (dotted keys).toList := by
    simp [String.toList_append]
  rw [shape] at read ⊢
  exact spells_word (by decide) (fun c inside => (noBreak_dottedParts plain c inside).1) read

theorem legible_keyTexts : ∀ e ∈ Expr.keyTexts keys, e.Everywhere Expr.Legible :=
  List.forall_mem_map.mpr fun key _ => Expr.legible_ofText .nowhere key

def wordCall (name : String) (items : List Expr) : List Expr :=
  .value .nowhere (.word name) :: items

theorem shown_wordCall (name : String) (items : List Expr) :
    (Expr.call .nowhere (wordCall name items)).shown =
      .call .nowhere (wordCall name (items.map Expr.shown)) := by
  rw [Expr.shown, Expr.shownAll_eq_map]
  rfl

theorem writes_wordCall {name : String} (spelled : Spells name.toList (.word name))
    {parts : List String} {items : List Expr} (legible : ∀ e ∈ items, e.Everywhere Expr.Legible)
    (each : List.Forall₂ (fun part item => SaysInside part item.lexemes) parts items) :
    Writes (name :: parts) (wordCall name items) :=
  ⟨List.cons_ne_nil _ _, List.forall_mem_cons.mpr ⟨Expr.legible_word spelled, legible⟩,
    .cons (saysInside_word spelled) each⟩

theorem memberCall_readAlike (filled : keys ≠ []) (plain : ∀ key ∈ keys, IsSegment key)
    (noNumber : Decimal.Numeral.read? ("." ++ dotted keys).toList = none)
    {source : String} {more : List String} (few : more.length ≤ 1)
    (operands : ∀ text ∈ source :: more, IsOperand text) :
    ReadAlike (callText (("." ++ dotted keys) :: source :: more))
      (callText (Expr.accessName more.length :: source :: (keys.map quote ++ more))) := by
  obtain ⟨_, is, resolves⟩ := exists_items operands
  obtain ⟨item, rest, first, behind, rfl⟩ := List.forall₂_cons_left_iff.mp is
  have count : (rest.map Expr.shown).length = more.length := by
    rw [List.length_map, behind.length_eq]
  have operators : ∀ e ∈ (item :: rest).map Expr.shown, e.operator? = none :=
    List.forall_mem_map.mpr (forall_items is fun _ _ is => is.operator?_shown)
  have legible := forall_items is fun _ _ is => is.legible
  have written := is.imp fun _ _ => saysInside_item
  obtain ⟨here, later⟩ := List.forall_mem_cons.mp legible
  have accessWritten : List.Forall₂ (fun part (item : Expr) => SaysInside part item.lexemes)
      (source :: (keys.map quote ++ more)) (item :: (Expr.keyTexts keys ++ rest)) :=
    .cons (saysInside_item first)
      (List.rel_append saysInside_keys (behind.imp fun _ _ => saysInside_item))
  have accessLegible : ∀ e ∈ item :: (Expr.keyTexts keys ++ rest), e.Everywhere Expr.Legible :=
    List.forall_mem_cons.mpr ⟨here, List.forall_mem_append.mpr ⟨legible_keyTexts, later⟩⟩
  -- The brackets nest alike, the passes make the same of both calls, and they accept the first.
  refine readAlike_callText (writes_wordCall (spells_member plain noNumber) legible written)
    (writes_wordCall (spells_access _) accessLegible accessWritten) ?_ ?_ ?_
  · simp only [wordCall, Expr.nestingAll, Expr.nestingAll_keys]
    rfl
  · rw [shown_wordCall, shown_wordCall, List.map_cons, List.map_cons, List.map_append,
      Expr.map_shown_keys, ← count]
    exact Expr.interchangeable_memberCall filled plain (count ▸ few) operators _ _ _ _
  · rw [shown_wordCall]
    exact Expr.resolves_memberCall filled plain (count ▸ few) operators _ _
      (List.forall_mem_map.mpr resolves)

end

/-! ## Look-ups -/

def lookupText (head : String) (keys : List String) : String :=
  callText (Expr.readMember :: ("$" ++ head) :: keys.map quote)

section
variable {keys : List String} {head : String}

theorem text_lookup (head : String) (keys : List String) :
    (Expr.lookup head keys).text = lookupText head keys := by
  have function : (Expr.value .nowhere (.word Expr.readMember)).text = Expr.readMember :=
    String.ofList_toList
  have reference : (Expr.variable .nowhere head).text = "$" ++ head := by
    rw [← String.toList_inj, Expr.text, String.toList_ofList, String.toList_append]
    rfl
  have path : (Expr.keyTexts keys).map Expr.text = keys.map quote := by
    rw [Expr.keyTexts, List.map_map]
    rfl
  rw [lookupText, Expr.lookup, ← Expr.callText_texts, List.map_cons, List.map_cons, function,
    reference, path]

theorem nesting_lookup (head : String) (keys : List String) :
    (Expr.lookup head keys).nesting = 1 := by
  have flat : Expr.nestingAll (Expr.keyTexts keys ++ []) = 0 := Expr.nestingAll_keys []
  rw [List.append_nil] at flat
  simp [Expr.lookup, Expr.nesting, Expr.nestingAll, flat]

theorem legible_lookup (headPlain : IsSegment head) (keys : List String) :
    (Expr.lookup head keys).Everywhere Expr.Legible := by
  have reference := spells_variable headPlain.filled fun c inside => (headPlain.plain c inside).1
  exact Expr.legible_call (List.cons_ne_nil _ _) (List.forall_mem_cons.mpr
    ⟨Expr.legible_word (spells_access 0),
      List.forall_mem_cons.mpr ⟨Expr.legible_variable .nowhere reference, legible_keyTexts⟩⟩)

namespace Occurrence
variable {source : String} (here : Occurrence source)

theorem toList_text : here.text.toList = here.piece.spelling := String.toList_ofList

theorem variable_readsAs (filled : keys ≠ []) (headPlain : IsSegment head)
    (plain : ∀ key ∈ keys, IsSegment key) (written : here.text = "$" ++ dotted (head :: keys)) :
    here.ReadsAs (lookupText head keys) 1 := by
  have spelled : here.piece.spelling = '$' :: (dotted (head :: keys)).toList := by
    rw [← here.toList_text, written, String.toList_append]
    rfl
  obtain ⟨behind, shape⟩ := exists_dotted filled head
  have word : Lexeme.ofWord ('$' :: (dotted (head :: keys)).toList) =
      .ok (.variable (dotted (head :: keys))) := by
    obtain ⟨c, more, first⟩ :=
      List.exists_cons_of_ne_nil (String.toList_eq_nil_iff.not.mpr headPlain.filled)
    rw [first, List.cons_append] at shape
    rw [shape, Lexeme.ofWord, ← shape, String.ofList_toList]
  rw [← text_lookup, ← nesting_lookup head keys]
  refine here.readsAs_item spelled (by decide) word rfl (fun _ => rfl)
    (legible_lookup headPlain keys) fun place => ?_
  have shown := Expr.shown_lookup head keys
  rw [Expr.lookup] at shown
  rw [shown]
  exact Expr.interchangeable_variable filled headPlain plain place

theorem word_readsAs (filled : keys ≠ []) (headPlain : IsSegment head)
    (plain : ∀ key ∈ keys, IsSegment key)
    (starts : ∀ c ∈ head.toList.head?, c ≠ '$' ∧ c ≠ '#' ∧ isBlank c = false)
    (noNumber : Decimal.Numeral.read? (dotted (head :: keys)).toList = none)
    (noDigits : ∀ key ∈ keys, ∀ c ∈ key.toList.head?, isDigit c = false)
    (written : here.text = dotted (head :: keys)) {state : Parsing}
    (reached : here.state = .ok state) (atHead : state.AtHead) :
    here.ReadsAs
      (if state.standsAlone here.next? then callText [lookupText head keys]
        else lookupText head keys)
      (if state.standsAlone here.next? then 2 else 1) := by
  obtain ⟨behind, shape⟩ := exists_dotted filled head
  obtain ⟨c, more, first⟩ :=
    List.exists_cons_of_ne_nil (String.toList_eq_nil_iff.not.mpr headPlain.filled)
  obtain ⟨noVariable, noComment, noBlank⟩ := starts c (by simp [first])
  have noBreak := (headPlain.plain c (by simp [first])).1
  rw [first, List.cons_append] at shape
  have spelled : here.piece.spelling = c :: (more ++ '.' :: behind) := by
    rw [← here.toList_text, written, shape]
  have word : Lexeme.ofWord (c :: (more ++ '.' :: behind)) =
      .ok (.word (dotted (head :: keys))) := by
    rw [← shape]
    exact Expr.ofWord_dotted noNumber (by simp [shape, noVariable]) (by simp [shape])
  have dot : dotted (head :: keys) ∉ operators := Expr.dotted_not_operator (by simp [shape])
  have item : (Lexeme.word (dotted (head :: keys))).isOperator = false := by
    simpa [Lexeme.isOperator] using dot
  have begins : startsWord c = true := by simp [startsWord, noBreak, noBlank, noComment]
  have shown := Expr.shown_lookup head keys
  have change (place : Location) {found : Expr} {alone : Bool}
      (written : found.placeless = if alone then .call .nowhere [Expr.lookup head keys]
        else Expr.lookup head keys) :=
    Expr.headChange_lookup filled headPlain plain noDigits place written
  -- A word that stands alone is made a call, so there the look-up is in brackets of its own.
  cases alone : state.standsAlone here.next? with
  | false =>
      rw [if_neg Bool.false_ne_true, if_neg Bool.false_ne_true, ← text_lookup,
        ← nesting_lookup head keys]
      refine here.readsAs_head reached atHead spelled begins word item (fun _ => rfl)
        (legible_lookup headPlain keys) fun place found same => ?_
      rw [alone]
      exact change place (same.trans shown)
  | true =>
      have single : callText [lookupText head keys] =
          (Expr.call .nowhere [Expr.lookup head keys]).text := by
        rw [← Expr.callText_texts, List.map_singleton, text_lookup]
      have nested : (Expr.call .nowhere [Expr.lookup head keys]).nesting = 2 := by
        rw [Expr.nesting, Expr.nestingAll, nesting_lookup]
        rfl
      rw [if_pos rfl, if_pos rfl, single, ← nested]
      refine here.readsAs_head reached atHead spelled begins word item (fun _ => rfl)
        (Expr.legible_call (List.cons_ne_nil _ _)
          (List.forall_mem_singleton.mpr (legible_lookup headPlain keys)))
        fun place found same => ?_
      rw [alone]
      refine change place (same.trans ?_)
      rw [Expr.shown, Expr.shownAll_eq_map, List.map_singleton, shown]
      rfl

end Occurrence
end

/-! ## The statement -/

/-- Dotted names are read as the access to members that they stand for: a command `.a.b` with one
argument or two, a variable `$h.a.b` wherever it stands, and a word `h.a.b` at the head of a call.
A word that stands alone is a call by that, and the look-up is written in brackets of its own. The
one exception is where the brackets in front leave no room for those of the look-up. -/
theorem dotted_readAs_access {keys : List String} (filled : keys ≠ [])
    (plain : ∀ key ∈ keys, IsSegment key) :
    (Decimal.Numeral.read? ("." ++ dotted keys).toList = none →
      (∀ e, IsOperand e →
        ReadAlike (callText ["." ++ dotted keys, e]) (callText ("get" :: e :: keys.map quote))) ∧
      ∀ e v, IsOperand e → IsOperand v →
        ReadAlike (callText ["." ++ dotted keys, e, v])
          (callText ("set" :: e :: (keys.map quote ++ [v])))) ∧
    ∀ head, IsSegment head →
      (∀ source (here : Occurrence source), here.text = "$" ++ dotted (head :: keys) →
        here.ReadsAs (lookupText head keys) 1) ∧
      ((∀ c ∈ head.toList.head?, c ≠ '$' ∧ c ≠ '#' ∧ isBlank c = false) →
        Decimal.Numeral.read? (dotted (head :: keys)).toList = none →
        (∀ key ∈ keys, ∀ c ∈ key.toList.head?, isDigit c = false) →
        ∀ source (here : Occurrence source) state, here.text = dotted (head :: keys) →
          here.state = .ok state → state.AtHead →
          here.ReadsAs
            (if state.standsAlone here.next? then callText [lookupText head keys]
              else lookupText head keys)
            (if state.standsAlone here.next? then 2 else 1)) := by
  refine ⟨fun noNumber => ⟨fun e operand => ?_, fun e v operand value => ?_⟩,
    fun head headPlain => ⟨fun source here written => ?_, ?_⟩⟩
  · have few : ([] : List String).length ≤ 1 := Nat.zero_le 1
    have alike := memberCall_readAlike filled plain noNumber few
      (List.forall_mem_singleton.mpr operand)
    rwa [List.append_nil] at alike
  · have few : [v].length ≤ 1 := Nat.le_refl 1
    exact memberCall_readAlike filled plain noNumber few
      (List.forall_mem_cons.mpr ⟨operand, List.forall_mem_singleton.mpr value⟩)
  · exact here.variable_readsAs filled headPlain plain written
  · intro starts noNumber noDigits source here state written reached atHead
    exact here.word_readsAs filled headPlain plain starts noNumber noDigits written reached atHead

/-- The variable in a line that prints it. -/
def printedName : Occurrence "print $user.name.first" :=
  ⟨[⟨⟨1, 1⟩, "print".toList, some (.word "print")⟩, ⟨⟨1, 6⟩, [' '], none⟩],
    ⟨⟨1, 7⟩, "$user.name.first".toList, some (.variable "user.name.first")⟩, [], by cbv⟩

def pipedName : Occurrence "user.name.first | print" :=
  ⟨[], ⟨⟨1, 1⟩, "user.name.first".toList, some (.word "user.name.first")⟩,
    [⟨⟨1, 16⟩, [' '], none⟩, ⟨⟨1, 17⟩, ['|'], some (.word "|")⟩, ⟨⟨1, 18⟩, [' '], none⟩,
      ⟨⟨1, 19⟩, "print".toList, some (.word "print")⟩], by cbv⟩

/-- A dotted word at the head of a call with an argument. -/
def calledName : Occurrence "(user.name.first 1)" :=
  ⟨[⟨⟨1, 1⟩, ['('], some (.bracket '(')⟩],
    ⟨⟨1, 2⟩, "user.name.first".toList, some (.word "user.name.first")⟩,
    [⟨⟨1, 17⟩, [' '], none⟩, ⟨⟨1, 18⟩, ['1'], some (.number (.int 1) "1")⟩,
      ⟨⟨1, 19⟩, [')'], some (.bracket ')')⟩], by cbv⟩

theorem dotted_readAs_access_userName :
    ReadAlike "(.name.first (f $x))" "(get (f $x) \"name\" \"first\")" ∧
      ReadAlike "(.name.first (f $x) 1)" "(set (f $x) \"name\" \"first\" 1)" ∧
      Expr.SameReading (Expr.read "print $user.name.first")
        (Expr.read "print (get $user \"name\" \"first\")") ∧
      Expr.SameReading (Expr.read "user.name.first | print")
        (Expr.read "((get $user \"name\" \"first\")) | print") ∧
      Expr.SameReading (Expr.read "(user.name.first 1)")
        (Expr.read "((get $user \"name\" \"first\") 1)") := by
  have plain : ∀ part ∈ ["user", "name", "first"], IsSegment part := by
    intro part member
    simp only [List.mem_cons, List.not_mem_nil, or_false] at member
    rcases member with rfl | rfl | rfl <;> exact ⟨by decide, by simp [isWordBreak]⟩
  obtain ⟨head, keysPlain⟩ := List.forall_mem_cons.mp plain
  have call : IsOperand "(f $x)" := by
    refine ⟨⟨.call ⟨1, 1⟩ [.value ⟨1, 2⟩ (.word "f"), .variable ⟨1, 4⟩ "x"], by cbv,
      [⟨⟨1, 1⟩, ['('], some (.bracket '(')⟩, ⟨⟨1, 2⟩, ['f'], some (.word "f")⟩,
        ⟨⟨1, 3⟩, [' '], none⟩, ⟨⟨1, 4⟩, ['$', 'x'], some (.variable "x")⟩,
        ⟨⟨1, 6⟩, [')'], some (.bracket ')')⟩], by cbv, rfl, ?_⟩,
      .call ⟨1, 1⟩ [.command ⟨1, 2⟩ "f", .variable ⟨1, 4⟩ "x"], by cbv⟩
    rintro _ ⟨⟩ ⟨⟩
  have one : IsOperand "1" := by
    refine ⟨⟨.value ⟨1, 1⟩ (.number (.int 1) "1"), by cbv,
      [⟨⟨1, 1⟩, ['1'], some (.number (.int 1) "1")⟩], by cbv, rfl, ?_⟩,
      .value ⟨1, 1⟩ (.number (.int 1) "1"), by cbv⟩
    rintro _ ⟨⟩ ⟨⟩
  obtain ⟨commands, names⟩ := dotted_readAs_access (List.cons_ne_nil _ _) keysPlain
  obtain ⟨reads, writes⟩ := commands (by cbv)
  obtain ⟨lookups, words⟩ := names "user" head
  have noDigits : ∀ key ∈ ["name", "first"], ∀ c ∈ key.toList.head?, isDigit c = false := by
    intro key member
    simp only [List.mem_cons, List.not_mem_nil, or_false] at member
    rcases member with rfl | rfl <;> (rintro _ ⟨⟩; decide)
  have heads := words (by rintro _ ⟨⟩; decide) (by cbv) noDigits
  have start : printedName.state = .ok ⟨[], [.value ⟨1, 1⟩ (.word "print")], []⟩ := by cbv
  have begun : pipedName.state = .ok .start := by cbv
  have inside : calledName.state = .ok ⟨[⟨'(', ⟨1, 1⟩, []⟩], [], []⟩ := by cbv
  have printed := (lookups _ printedName (by cbv)).sameReading start (by decide)
  have onLine : Parsing.start.AtHead := ⟨by rintro _ ⟨⟩, by rintro _ ⟨⟩⟩
  have inCall : Parsing.AtHead ⟨[⟨'(', ⟨1, 1⟩, []⟩], [], []⟩ :=
    ⟨by rintro _ ⟨⟩; rfl, by rintro _ ⟨⟩⟩
  have piped := (heads _ pipedName _ (by cbv) begun onLine).sameReading begun (by cbv)
  have called := (heads _ calledName _ (by cbv) inside inCall).sameReading inside (by cbv)
  have printedText : printedName.exchanged (lookupText "user" ["name", "first"]) =
      "print (get $user \"name\" \"first\")" := by cbv
  have pipedText : (pipedName.exchanged
      (if Parsing.start.standsAlone pipedName.next? then
        callText [lookupText "user" ["name", "first"]] else lookupText "user" ["name", "first"])) =
      "((get $user \"name\" \"first\")) | print" := by cbv
  have calledText : (calledName.exchanged
      (if Parsing.standsAlone ⟨[⟨'(', ⟨1, 1⟩, []⟩], [], []⟩ calledName.next? then
        callText [lookupText "user" ["name", "first"]] else lookupText "user" ["name", "first"])) =
      "((get $user \"name\" \"first\") 1)" := by cbv
  have readText : callText ["." ++ dotted ["name", "first"], "(f $x)"] =
      "(.name.first (f $x))" := by cbv
  have writeText : callText ["." ++ dotted ["name", "first"], "(f $x)", "1"] =
      "(.name.first (f $x) 1)" := by cbv
  have read := reads "(f $x)" call
  have wrote := writes "(f $x)" "1" call one
  rw [readText] at read
  rw [writeText] at wrote
  rw [printedText] at printed
  rw [pipedText] at piped
  rw [calledText] at called
  exact ⟨read, wrote, printed, piped, called⟩

end ShellLisp
