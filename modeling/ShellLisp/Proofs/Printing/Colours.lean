import ShellLisp.Proofs.Printing.Layout
import ShellLisp.Proofs.Printing.Unescaped

/-!
# Colours of printed values and trees

Coloured printing puts a sequence of characters in front of a leaf and another behind it, and nothing
else: when these sequences are deleted, what is left is what is printed without colours, with the
same line breaks and the same parts left out. The texts that are printed may not hold the character
that starts such a sequence.
-/

namespace ShellLisp

/-! ## Deleting colours -/

/-- The sequences that start a colour, and the one that ends it. -/
def colourSequences : List (List Char) :=
  Colour.stop.toList ::
    [Colour.command, .variable, .string, .number, .literal, .function, .special].map (·.start.toList)

/-- A text without the colour sequences in it, and without so many characters at its start. -/
def deleteColours : Nat → List Char → List Char
  | _, [] => []
  | skipped + 1, _ :: rest => deleteColours skipped rest
  | 0, c :: rest =>
      match colourSequences.find? (·.isPrefixOf (c :: rest)) with
      | some found => deleteColours (found.length - 1) rest
      | none => c :: deleteColours 0 rest

def uncoloured (text : String) : String := String.ofList (deleteColours 0 text.toList)

theorem deleteColours_eq_drop (skipped : Nat) (text : List Char) :
    deleteColours skipped text = deleteColours 0 (text.drop skipped) := by
  induction skipped generalizing text with
  | zero => rfl
  | succ count ih =>
      cases text with
      | nil => rfl
      | cons c rest => exact ih rest

theorem colourSequence_unique {first second text : List Char} (isFirst : first ∈ colourSequences)
    (isSecond : second ∈ colourSequences) (starts : first <+: text) (too : second <+: text) :
    first = second := by
  have apart : ∀ first ∈ colourSequences, ∀ second ∈ colourSequences, first <+: second →
      first = second := by decide
  rcases List.prefix_or_prefix_of_prefix starts too with inside | inside
  · exact apart first isFirst second isSecond inside
  · exact (apart second isSecond first isFirst inside).symm

theorem head_of_mem_colourSequences {sequence : List Char} (is : sequence ∈ colourSequences) :
    ∃ tail, sequence = escape :: tail := by
  have starts : ∀ sequence ∈ colourSequences, sequence.head? = some escape := by decide
  obtain ⟨tail, same⟩ := List.head?_eq_some_iff.mp (starts sequence is)
  exact ⟨tail, same⟩

theorem deleteColours_sequence {sequence : List Char} (is : sequence ∈ colourSequences)
    (rest : List Char) : deleteColours 0 (sequence ++ rest) = deleteColours 0 rest := by
  obtain ⟨tail, rfl⟩ := head_of_mem_colourSequences is
  have starts : escape :: tail <+: escape :: (tail ++ rest) := List.prefix_append _ _
  have found : colourSequences.find? (·.isPrefixOf (escape :: (tail ++ rest))) =
      some (escape :: tail) := by
    cases search : colourSequences.find? (·.isPrefixOf (escape :: (tail ++ rest))) with
    | none =>
        have missed := List.find?_eq_none.mp search _ is
        exact absurd (List.isPrefixOf_iff_prefix.mpr starts) missed
    | some other =>
        have among := List.find?_some (p := (List.isPrefixOf · (escape :: (tail ++ rest)))) search
        have too := List.isPrefixOf_iff_prefix.mp among
        rw [colourSequence_unique (List.mem_of_find?_eq_some search) is too starts]
  rw [List.cons_append, deleteColours, found]
  dsimp only
  rw [deleteColours_eq_drop, List.length_cons, Nat.add_sub_cancel, List.drop_left]

theorem deleteColours_plain {c : Char} (plain : c ≠ escape) (rest : List Char) :
    deleteColours 0 (c :: rest) = c :: deleteColours 0 rest := by
  have none : colourSequences.find? (·.isPrefixOf (c :: rest)) = none := by
    rw [List.find?_eq_none]
    intro sequence is starts
    obtain ⟨tail, rfl⟩ := head_of_mem_colourSequences is
    obtain ⟨behind, same⟩ := List.isPrefixOf_iff_prefix.mp starts
    exact plain (List.cons.inj same).1.symm
  rw [deleteColours, none]

/-! ## Coloured texts -/

inductive Painted : List Char → List Char → Prop
  | nil : Painted [] []
  | plain {c : Char} {coloured text : List Char} (other : c ≠ escape)
      (rest : Painted coloured text) : Painted (c :: coloured) (c :: text)
  | sequence {sequence coloured text : List Char} (is : sequence ∈ colourSequences)
      (rest : Painted coloured text) : Painted (sequence ++ coloured) text

namespace Painted
variable {coloured text : List Char}

theorem delete (painted : Painted coloured text) : deleteColours 0 coloured = text := by
  induction painted with
  | nil => rfl
  | plain other _ ih => rw [deleteColours_plain other, ih]
  | sequence is _ ih => rw [deleteColours_sequence is, ih]

theorem append {more further : List Char} (painted : Painted coloured text)
    (later : Painted more further) : Painted (coloured ++ more) (text ++ further) := by
  induction painted with
  | nil => exact later
  | plain other _ ih => exact ih.plain other
  | sequence is _ ih =>
      rw [List.append_assoc]
      exact ih.sequence is

theorem refl (plain : Unescaped text) : Painted text text := by
  induction text with
  | nil => exact .nil
  | cons c rest ih =>
      obtain ⟨other, later⟩ := unescaped_cons.mp plain
      exact (ih later).plain other

theorem paint (colour : Colour) {text : String} (plain : Unescaped text.toList) :
    Painted (colour.paint text).toList text.toList := by
  have starts : colour.start.toList ∈ colourSequences := by cases colour <;> decide
  have stops : Colour.stop.toList ∈ colourSequences := List.mem_cons_self
  have behind := (refl plain).append (Painted.nil.sequence stops)
  rw [List.append_nil, List.append_nil] at behind
  rw [Colour.paint, String.toList_append, String.toList_append, List.append_assoc]
  exact behind.sequence starts

theorem intercalate {separator : List Char} (between : Unescaped separator)
    {parts others : List (List Char)} (each : List.Forall₂ Painted parts others) :
    Painted (separator.intercalate parts) (separator.intercalate others) := by
  induction each with
  | nil => exact .nil
  | cons first tail ih =>
      cases tail with
      | nil => simpa using first
      | cons second further =>
          rw [List.intercalate_cons_cons, List.intercalate_cons_cons]
          exact (first.append (refl between)).append ih

end Painted

inductive Alike {ε α β : Type} (relation : α → β → Prop) : Except ε α → Except ε β → Prop
  | ok {a : α} {b : β} (related : relation a b) : Alike relation (.ok a) (.ok b)
  | error (failure : ε) : Alike relation (.error failure) (.error failure)

namespace Alike
variable {ε α β γ δ ι : Type} {relation : α → β → Prop} {next : γ → δ → Prop}

theorem bind {first : Except ε α} {second : Except ε β} (alike : Alike relation first second)
    {then_ : α → Except ε γ} {beside : β → Except ε δ}
    (later : ∀ a b, relation a b → Alike next (then_ a) (beside b)) :
    Alike next (first >>= then_) (second >>= beside) := by
  cases alike with
  | ok related => exact later _ _ related
  | error failure => exact .error failure

theorem refl {result : Except ε α} {relation : α → α → Prop}
    (each : ∀ a, result = .ok a → relation a a) : Alike relation result result := by
  cases result with
  | ok a => exact .ok (each a rfl)
  | error failure => exact .error failure

theorem mapM {items : List ι} {action : ι → Except ε α} {beside : ι → Except ε β}
    (each : ∀ item ∈ items, Alike relation (action item) (beside item)) :
    Alike (List.Forall₂ relation) (items.mapM action) (items.mapM beside) := by
  induction items with
  | nil => exact .ok .nil
  | cons item rest ih =>
      rw [List.mapM_cons, List.mapM_cons]
      refine (each item List.mem_cons_self).bind fun a b first => ?_
      refine (ih fun other member => each other (List.mem_cons_of_mem _ member)).bind
        fun parts others all => ?_
      exact .ok (.cons first all)

end Alike

def PaintedText (coloured text : String) : Prop := Painted coloured.toList text.toList

theorem map_uncoloured {ε : Type} {coloured plain : Except ε String}
    (alike : Alike PaintedText coloured plain) : coloured.map uncoloured = plain := by
  cases alike with
  | error failure => rfl
  | ok painted =>
      refine congrArg Except.ok ?_
      rw [uncoloured, painted.delete, String.ofList_toList]

theorem painted_row {opening closing separator : String} (opens : Unescaped opening.toList)
    (closes : Unescaped closing.toList) (between : Unescaped separator.toList)
    {parts others : List String} (each : List.Forall₂ PaintedText parts others) :
    PaintedText (opening ++ separator.intercalate parts ++ closing)
      (opening ++ separator.intercalate others ++ closing) := by
  have inside : List.Forall₂ Painted (parts.map String.toList) (others.map String.toList) :=
    List.forall₂_map_left_iff.mpr (List.forall₂_map_right_iff.mpr each)
  simp only [PaintedText, String.toList_append, String.toList_intercalate]
  exact ((Painted.refl opens).append (.intercalate between inside)).append (.refl closes)

/-! ## Values -/

namespace Store
variable {store : Store} {value : Value}

/-- A value is printed with the same parts in the same order whatever is put around its leaves. -/
theorem textWithin_painted {leaf : Bool → Value → Except Failure String}
    (leaves : ∀ part, store.ShowsUnescaped part →
      Alike PaintedText (leaf true part) (store.leafText true part))
    (plain : store.ShowsUnescaped value) (depth : Nat) :
    Alike PaintedText (store.textWithin leaf depth true value)
      (store.textWithin store.leafText depth true value) := by
  induction depth generalizing value with
  | zero => exact .error Failure.tooDeep
  | succ depth ih =>
      have part {inner : Value} (inside : inner ∈ store.parts value) :
          Alike PaintedText (store.textWithin leaf depth true inner)
            (store.textWithin store.leafText depth true inner) := ih (plain.part inside)
      have row : ∀ parts others : List String, List.Forall₂ PaintedText parts others →
          Alike (ε := Failure) PaintedText (.ok ("[" ++ " ".intercalate parts ++ "]"))
            (.ok ("[" ++ " ".intercalate others ++ "]")) := fun parts others each =>
        .ok (painted_row (by decide) (by decide) (by decide) each)
      -- Only containers are printed by their parts; all other values are leaves.
      cases value with
      | tuple items => exact (Alike.mapM fun item member => part member).bind row
      | array ref => exact (Alike.mapM fun item member => part member).bind row
      | map ref =>
          have entry (entry : Value × Value) (member : entry ∈ (store.map ref).toList) :
              Alike PaintedText
                (do
                  let name ← store.textWithin leaf depth true entry.1
                  let text ← store.textWithin leaf depth true entry.2
                  return name ++ " " ++ text)
                (do
                  let name ← store.textWithin store.leafText depth true entry.1
                  let text ← store.textWithin store.leafText depth true entry.2
                  return name ++ " " ++ text) := by
            refine (part (key_mem_parts member)).bind fun name plainName named => ?_
            refine (part (item_mem_parts member)).bind fun text plainText written => .ok ?_
            simp only [PaintedText, String.toList_append]
            exact (named.append (.refl (by decide))).append written
          exact (Alike.mapM entry).bind fun parts others each =>
            .ok (painted_row (by decide) (by decide) (by decide) each)
      | _ => exact leaves _ plain

theorem leafText_painted (plain : store.ShowsUnescaped value) :
    Alike PaintedText (store.leafText true value) (store.leafText true value) :=
  .refl fun text printed => .refl ((givesUnescaped_leafText plain).value text printed)

theorem colouredLeaf_painted (plain : store.ShowsUnescaped value) :
    Alike PaintedText (store.colouredLeaf value) (store.leafText true value) := by
  have gives := givesUnescaped_leafText plain
  unfold colouredLeaf
  cases printed : store.leafText true value with
  | error failure => exact .error failure
  | ok text =>
      have unescaped := gives.value text printed
      refine .ok ?_
      split
      · exact .paint _ unescaped
      · exact .refl unescaped

theorem coloured_painted (style : Style) (plain : store.ShowsUnescaped value) :
    Alike PaintedText (store.coloured style value) (store.text true value) := by
  unfold coloured
  split
  · exact textWithin_painted (fun part shows => colouredLeaf_painted shows) plain _
  · exact textWithin_painted (fun part shows => leafText_painted shows) plain _

end Store

/-! ## Trees -/

namespace Expr

theorem unescaped_restChars {body : List Expr} :
    Unescaped (restChars body) ↔ ∀ e ∈ body, Unescaped e.chars := by
  have space : ' ' ≠ escape := by decide
  induction body with
  | nil => simp [restChars]
  | cons e rest ih => simp [restChars, space, ih]

theorem unescaped_bodyChars {body : List Expr} :
    Unescaped (bodyChars body) ↔ ∀ e ∈ body, Unescaped e.chars := by
  cases body with
  | nil => simp [bodyChars]
  | cons e rest => simp [bodyChars, unescaped_restChars]

structure Recoloured (on off : Style) : Prop where
  width : on.width = off.width
  depth : on.depth = off.depth
  legendless : on.legend = false
  coloured : on.colour = true
  plain : off.colour = false

theorem painted_arrange {opening closing : String} (opens : Unescaped opening.toList)
    (closes : Unescaped closing.toList) (indent : Int) (oneLine : Bool)
    {parts others : List String} (each : List.Forall₂ PaintedText parts others) :
    PaintedText (arrange opening closing indent oneLine parts)
      (arrange opening closing indent oneLine others) := by
  cases oneLine with
  | true => exact painted_row opens closes (by decide) each
  | false =>
      refine painted_row opens closes ?_ each
      have line : '\n' ≠ escape ∧ ' ' ≠ escape := by decide
      simp [padding, toList_pushn, unescaped_replicate, line]

section
variable {on off : Style} (recoloured : Recoloured on off) {indent : Int} {depth : Nat}
include recoloured

theorem layoutLeaf_painted {e : Expr} (plain : Unescaped e.chars) :
    Alike PaintedText (layoutLeaf on indent depth e) (layoutLeaf off indent depth e) := by
  have text : Unescaped e.text.toList := by rwa [Expr.text, String.toList_ofList]
  unfold layoutLeaf
  simp only [recoloured.depth, recoloured.legendless, recoloured.plain, recoloured.coloured,
    leafText, Bool.false_and, Bool.and_false, Bool.false_eq_true, if_false, if_true,
    String.empty_append]
  cases off.depth.reachedBy depth with
  | error fault => exact .error fault
  | ok reached =>
      cases reached with
      | true => exact .ok (.refl (by decide))
      | false => exact .ok (.paint _ text)

theorem layoutForm_painted {opening closing : String} (opens : Unescaped opening.toList)
    (closes : Unescaped closing.toList) {length : Nat}
    {items others : Unit → Except Fault (List String)}
    (each : Alike (List.Forall₂ PaintedText) (items ()) (others ())) :
    Alike PaintedText (layoutForm on indent depth opening closing length items)
      (layoutForm off indent depth opening closing length others) := by
  unfold layoutForm
  simp only [recoloured.depth, recoloured.width, recoloured.legendless, recoloured.plain,
    Bool.false_and, Bool.and_false, Bool.false_eq_true, if_false, String.empty_append]
  cases off.depth.reachedBy depth with
  | error fault => exact .error fault
  | ok reached =>
      cases reached with
      | true => exact .ok (.refl (by decide))
      | false =>
          refine each.bind fun parts plainParts painted => ?_
          cases painted with
          | nil =>
              refine .ok (.refl ?_)
              rw [String.toList_append]
              exact unescaped_append.mpr ⟨opens, closes⟩
          | cons first rest =>
              cases off.width.admits (length + 2 * indent) with
              | error fault => exact .error fault
              | ok oneLine =>
                  exact .ok (painted_arrange opens closes indent oneLine (.cons first rest))

omit recoloured in
theorem layoutAll_painted {body : List Expr}
    (each : ∀ e ∈ body, Alike PaintedText (layout on indent depth e) (layout off indent depth e)) :
    Alike (List.Forall₂ PaintedText) (layoutAll on indent depth body)
      (layoutAll off indent depth body) := by
  induction body with
  | nil => exact .ok .nil
  | cons e rest ih =>
      refine (each e List.mem_cons_self).bind fun part other first => ?_
      refine (ih fun x member => each x (List.mem_cons_of_mem _ member)).bind
        fun parts others all => ?_
      exact .ok (.cons first all)

/-- A tree is broken over the same lines, and left out in the same places, in colours or without. -/
theorem layout_painted {e : Expr} (plain : Unescaped e.chars) :
    Alike PaintedText (layout on indent depth e) (layout off indent depth e) := by
  have items : ∀ (opener closer : Char) (body : List Expr),
      Unescaped (opener :: bodyChars body ++ [closer]) → ∀ e ∈ body, Unescaped e.chars := by
    intro opener closer body whole
    simp only [unescaped_append, unescaped_cons] at whole
    exact unescaped_bodyChars.mp whole.1.2
  induction e using Expr.induction generalizing indent depth with
  | call place body ih =>
      rw [layout, layout]
      exact layoutForm_painted recoloured (by decide) (by decide)
        (layoutAll_painted fun e member => ih e member (items _ _ body plain e member))
  | array place body ih =>
      rw [layout, layout]
      exact layoutForm_painted recoloured (by decide) (by decide)
        (layoutAll_painted fun e member => ih e member (items _ _ body plain e member))
  | map place body ih =>
      rw [layout, layout]
      exact layoutForm_painted recoloured (by decide) (by decide)
        (layoutAll_painted fun e member => ih e member (items _ _ body plain e member))
  | value place literal => exact layoutLeaf_painted recoloured plain
  | command place name => exact layoutLeaf_painted recoloured plain
  | reference place name => exact layoutLeaf_painted recoloured plain

end

end Expr

/-! ## The statement -/

theorem recoloured_ofOptions {on off : PrintOptions}
    (same : ∀ name, name ≠ "color" → on.lookup name = off.lookup name)
    (legendless : on.lookup "display_legend" = none)
    (coloured : (Style.ofOptions on).colour = true) (plain : (Style.ofOptions off).colour = false) :
    Expr.Recoloured (Style.ofOptions on) (Style.ofOptions off) where
  width := by simp [Style.ofOptions, same]
  depth := by simp [Style.ofOptions, same]
  legendless := by
    simp only [Style.ofOptions, legendless]
    rfl
  coloured := coloured
  plain := plain

/-- Colours are put around what is printed anyway. A value that shows no text with an escape
character is printed in any style as it is printed plainly, when the colour sequences are deleted;
and so is a tree without such a character, broken over lines and left out in part as it is
without colours. -/
theorem uncoloured_printing :
    (∀ (store : Store) (value : Value) (options : PrintOptions),
      (∀ text, store.Shows value (.string text) → escape ∉ text.toList) →
      (store.coloured (Style.ofOptions options) value).map uncoloured = store.text true value) ∧
    ∀ (e : Expr) (indent : Int) (on off : PrintOptions), escape ∉ e.chars →
      (∀ name, name ≠ "color" → on.lookup name = off.lookup name) →
      on.lookup "display_legend" = none →
      (Style.ofOptions on).colour = true → (Style.ofOptions off).colour = false →
      (e.layout (Style.ofOptions on) indent 0).map uncoloured =
        e.layout (Style.ofOptions off) indent 0 := by
  constructor
  · intro store value options plain
    exact map_uncoloured (Store.coloured_painted _ plain)
  · intro e indent on off unescaped same legendless coloured plain
    exact map_uncoloured
      (Expr.layout_painted (recoloured_ofOptions same legendless coloured plain) unescaped)

/-- A row of a text and nothing, and a call that is broken over two lines, in colours. -/
theorem uncoloured_row_and_call :
    let row : Value := .tuple [.string "a b", .null]
    let call : Expr := .call .nowhere [.command .nowhere "echo", .variable .nowhere "x"]
    Store.empty.coloured (Style.ofOptions []) row =
        .ok "[\x1b[92m\"a b\"\x1b[0m \x1b[95mnull\x1b[0m]" ∧
      (Store.empty.coloured (Style.ofOptions []) row).map uncoloured =
        Store.empty.text true row ∧
      call.layout (Style.ofOptions [("max_line_length", .number (.int 5))]) 0 0 =
        .ok "(\x1b[94mecho\x1b[0m\n  \x1b[93m$x\x1b[0m)" ∧
      (call.layout (Style.ofOptions [("max_line_length", .number (.int 5))]) 0 0).map uncoloured =
        call.layout
          (Style.ofOptions [("color", .bool false), ("max_line_length", .number (.int 5))]) 0 0 := by
  intro row call
  have shows : ∀ text, Store.empty.Shows row (.string text) → escape ∉ text.toList := by
    intro text shown
    rcases Relation.ReflTransGen.cases_head shown with same | ⟨part, inside, later⟩
    · simp [row] at same
    · rcases List.mem_cons.mp inside with rfl | last
      · rcases Relation.ReflTransGen.cases_head later with same | ⟨further, none, -⟩
        · cases same
          decide
        · cases none
      · obtain rfl := List.mem_singleton.mp last
        rcases Relation.ReflTransGen.cases_head later with same | ⟨further, none, -⟩
        · cases same
        · cases none
  refine ⟨by cbv, uncoloured_printing.1 _ _ _ shows, by cbv, ?_⟩
  refine uncoloured_printing.2 call 0 _ _ (by decide) (fun name other => ?_) rfl rfl rfl
  simp only [List.lookup_cons, beq_eq_false_iff_ne.mpr other]

end ShellLisp
