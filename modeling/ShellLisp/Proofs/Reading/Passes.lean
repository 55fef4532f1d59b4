import Mathlib
import ShellLisp.Proofs.Reading.NormalForm

/-!
# Reading gives normal forms

Parsing puts commands only at heads of calls, and each pass establishes a part of the normal form
and keeps what was established before it. The main statement says that every tree that is read is in
normal form, and that the passes leave it as it is.
-/

namespace ShellLisp.Expr

section
variable {place : Location} {body : List Expr}

theorem call_not_command : (Expr.call place body).kind ≠ .command := nofun

theorem array_not_command : (Expr.array place body).kind ≠ .command := nofun

theorem map_not_command : (Expr.map place body).kind ≠ .command := nofun

theorem value_not_command {literal : Literal} : (Expr.value place literal).kind ≠ .command := nofun

theorem variable_not_command {name : String} : (Expr.variable place name).kind ≠ .command := nofun

end

/-! ## Parsing puts a command only at the head of a program -/

/-- A tree whose commands are at heads of calls, the tree itself being no command. -/
def Placed (e : Expr) : Prop := e.kind ≠ .command ∧ e.Everywhere CommandsAtHeads

theorem placed_call {place : Location} {body : List Expr} (items : ∀ e ∈ body, e.Placed) :
    (Expr.call place body).Placed :=
  ⟨call_not_command, everywhere_call.mpr
    ⟨fun item member => (items item (List.mem_of_mem_tail member)).1,
      fun e member => (items e member).2⟩⟩

theorem placed_array {place : Location} {body : List Expr} (items : ∀ e ∈ body, e.Placed) :
    (Expr.array place body).Placed :=
  ⟨array_not_command, everywhere_array.mpr ⟨fun item member => (items item member).1,
    fun e member => (items e member).2⟩⟩

theorem placed_map {place : Location} {body : List Expr} (items : ∀ e ∈ body, e.Placed) :
    (Expr.map place body).Placed :=
  ⟨map_not_command, everywhere_map.mpr ⟨fun item member => (items item member).1,
    fun e member => (items e member).2⟩⟩

theorem placed_value (place : Location) (literal : Literal) : (Expr.value place literal).Placed :=
  ⟨value_not_command, everywhere_value.mpr trivial⟩

theorem placed_variable (place : Location) (name : String) : (Expr.variable place name).Placed :=
  ⟨variable_not_command, everywhere_variable.mpr trivial⟩

theorem placed_of_leaf? {lexeme : Lexeme} {place : Location} {e : Expr}
    (found : lexeme.leaf? place = some e) : e.Placed := by
  cases lexeme <;> cases found <;> first | exact placed_value _ _ | exact placed_variable _ _

theorem placed_of_close {form : OpenForm} {e : Expr} (items : ∀ e ∈ form.items, e.Placed)
    (done : form.close = .ok e) : e.Placed := by
  have body : ∀ e ∈ form.items.reverse, e.Placed := by simpa using items
  unfold OpenForm.close at done
  simp only at done
  split at done
  · split at done
    · cases done
    · cases done
      exact placed_call body
  · split at done
    · cases done
      exact placed_array body
    · split at done
      · cases done
      · cases done
        exact placed_map body

structure PlacedParsing (state : Parsing) : Prop where
  forms : ∀ form ∈ state.forms, ∀ e ∈ form.items, e.Placed
  line : ∀ e ∈ state.line, e.Placed
  lines : ∀ line ∈ state.lines, ∀ e ∈ line, e.Placed

theorem placedParsing_add {state : Parsing} (placed : PlacedParsing state) {e : Expr}
    (item : e.Placed) : PlacedParsing (state.add e) := by
  obtain ⟨forms, line, lines⟩ := placed
  unfold Parsing.add
  split
  · rename_i none
    exact ⟨by simp [none], by simpa using ⟨item, line⟩, lines⟩
  · rename_i form outer shape
    rw [shape] at forms
    refine ⟨?_, line, lines⟩
    intro other member
    rcases List.mem_cons.mp member with rfl | later
    · simpa using ⟨item, forms form (by simp)⟩
    · exact forms other (by simp [later])

theorem placedParsing_bracket {state after : Parsing} (placed : PlacedParsing state)
    {place : Location} {symbol : Char} (done : state.bracket place symbol = .ok after) :
    PlacedParsing after := by
  unfold Parsing.bracket at done
  split at done
  · cases done
    exact ⟨by simpa using placed.forms, placed.line, placed.lines⟩
  · split at done
    · rename_i form outer shape
      split at done
      · cases action : form.close with
        | error failure => simp [action, Except.map] at done
        | ok e =>
            simp only [action, Except.map, Except.ok.injEq] at done
            subst done
            have forms := placed.forms
            rw [shape] at forms
            refine placedParsing_add ?_ (placed_of_close (forms form (by simp)) action)
            exact ⟨fun other member => forms other (by simp [member]), placed.line, placed.lines⟩
      · cases done
    · cases done

theorem placedParsing_step {state after : Parsing} (placed : PlacedParsing state) {token : Token}
    (done : state.step token = .ok after) : PlacedParsing after := by
  unfold Parsing.step at done
  split at done
  · exact placedParsing_bracket placed done
  · unfold Parsing.newline at done
    split at done
    · cases done
      exact ⟨by simp, by simp, by simpa using ⟨placed.line, placed.lines⟩⟩
    · cases done
  · split at done
    · rename_i e leaf
      cases done
      exact placedParsing_add placed (placed_of_leaf? leaf)
    · cases done
      exact placed

theorem placedParsing_foldlM {tokens : List Token} {state after : Parsing}
    (placed : PlacedParsing state) (done : tokens.foldlM Parsing.step state = .ok after) :
    PlacedParsing after := by
  induction tokens generalizing state with
  | nil =>
      cases done
      exact placed
  | cons token rest ih =>
      rw [List.foldlM_cons] at done
      obtain ⟨next, action, later⟩ := exists_of_bind_ok done
      exact ih (placedParsing_step placed action) later

theorem placed_statement {body : List Expr} (items : ∀ e ∈ body, e.Placed) :
    (statement body).Placed := by
  unfold statement
  split
  · split
    · exact placed_call items
    · exact items _ (by simp)
  · exact placed_call items

theorem placed_program {statements : List Expr} (items : ∀ e ∈ statements, e.Placed) {e : Expr}
    (made : program statements = some e) : e.Placed := by
  unfold program at made
  split at made
  · cases made
  · cases made
    exact items e (by simp)
  · cases made
    refine ⟨call_not_command, everywhere_call.mpr ⟨fun item member => (items item member).1, ?_⟩⟩
    intro item member
    rcases List.mem_cons.mp member with rfl | later
    · exact everywhere_command.mpr trivial
    · exact (items item later).2

theorem placed_of_ofParsing {state : Parsing} (placed : PlacedParsing state) {place : Location}
    {e : Expr} (done : ofParsing state place = .ok (some e)) : e.Placed := by
  unfold ofParsing at done
  split at done
  · cases done
  · simp only [Except.ok.injEq] at done
    refine placed_program ?_ done
    intro item member
    obtain ⟨line, inside, rfl⟩ := List.mem_map.mp member
    have found := (List.mem_filter.mp inside).1
    obtain ⟨reversed, among, rfl⟩ := List.mem_map.mp found
    refine placed_statement fun x mem => ?_
    rcases List.mem_cons.mp (List.mem_reverse.mp among) with rfl | before
    · exact placed.line x (List.mem_reverse.mp mem)
    · exact placed.lines reversed before x (List.mem_reverse.mp mem)

theorem placed_of_parse {tokens : List Token} {e : Expr} (done : parse tokens = .ok (some e)) :
    e.Placed := by
  unfold parse at done
  obtain ⟨state, action, finished⟩ := exists_of_bind_ok done
  have start : PlacedParsing .start := ⟨by simp [Parsing.start], by simp [Parsing.start],
    by simp [Parsing.start]⟩
  exact placed_of_ofParsing (placedParsing_foldlM start action) finished

theorem placed_of_ofSource {source : String} {e : Expr} (done : ofSource source = .ok (some e)) :
    e.Placed := by
  unfold ofSource at done
  obtain ⟨tokens, -, parsed⟩ := exists_of_bind_ok done
  exact placed_of_parse (parse_of_parseWithin parsed)

/-! ## Marking commands -/

theorem kind_withCommands (e : Expr) : e.withCommands.kind = e.kind := by
  cases e <;> rfl

theorem everywhere_asHead {p : Expr → Prop} (command : ∀ place name, p (.command place name))
    {e : Expr} (all : e.Everywhere p) : e.asHead.Everywhere p := by
  unfold asHead
  split
  · exact everywhere_command.mpr (command _ _)
  · exact all

theorem headMarked_asHead (place : Location) (e : Expr) (rest : List Expr) :
    (Expr.call place (e.asHead :: rest)).HeadMarked := by
  intro head first word
  cases first
  cases e with
  | value place literal => cases literal <;> first | rfl | cases word
  | command place name => rfl
  | _ => cases word

def Marked (node : Expr) : Prop := node.CommandsAtHeads ∧ node.HeadMarked

theorem marked_empty (place : Location) : (Expr.call place []).Everywhere Marked :=
  everywhere_call.mpr ⟨⟨nofun, nofun⟩, nofun⟩

theorem marked_withCommands {e : Expr} (placed : e.Everywhere CommandsAtHeads) :
    e.withCommands.Everywhere Marked := by
  induction e using Expr.induction with
  | call place body ih =>
      obtain ⟨node, items⟩ := everywhere_call.mp placed
      rw [withCommands, withCommandsAll_eq_map]
      cases body with
      | nil => exact marked_empty place
      | cons head rest =>
          rw [List.map_cons, markHead_cons]
          refine everywhere_call.mpr ⟨⟨?_, headMarked_asHead _ _ _⟩, ?_⟩
          · intro item member
            obtain ⟨e, inside, rfl⟩ := List.mem_map.mp member
            rw [kind_withCommands]
            exact node e inside
          · intro item member
            rcases List.mem_cons.mp member with rfl | later
            · exact everywhere_asHead (fun _ _ => ⟨trivial, trivial⟩)
                (ih head (by simp) (items head (by simp)))
            · obtain ⟨e, inside, rfl⟩ := List.mem_map.mp later
              exact ih e (by simp [inside]) (items e (by simp [inside]))
  | array place body ih =>
      obtain ⟨node, items⟩ := everywhere_array.mp placed
      rw [withCommands, withCommandsAll_eq_map]
      refine everywhere_array.mpr ⟨⟨?_, trivial⟩, ?_⟩ <;> intro item member <;>
        obtain ⟨e, inside, rfl⟩ := List.mem_map.mp member
      · rw [kind_withCommands]
        exact node e inside
      · exact ih e inside (items e inside)
  | map place body ih =>
      obtain ⟨node, items⟩ := everywhere_map.mp placed
      rw [withCommands, withCommandsAll_eq_map]
      refine everywhere_map.mpr ⟨⟨?_, trivial⟩, ?_⟩ <;> intro item member <;>
        obtain ⟨e, inside, rfl⟩ := List.mem_map.mp member
      · rw [kind_withCommands]
        exact node e inside
      · exact ih e inside (items e inside)
  | value place literal => exact everywhere_value.mpr ⟨trivial, trivial⟩
  | command place name => exact everywhere_command.mpr ⟨trivial, trivial⟩
  | reference place name => exact everywhere_variable.mpr ⟨trivial, trivial⟩

/-! ## Joining groups -/

def Regrouped (node : Expr) : Prop := node.Marked ∧ node.OperatorFree

structure FreeItem (e : Expr) : Prop where
  operator : e.operator? = none
  kind : e.kind ≠ .command
  nodes : e.Everywhere Regrouped

theorem freeItem_of_not_bareWord {e : Expr} (long : e.isBareWord = false)
    (nodes : e.Everywhere Regrouped) : e.FreeItem := by
  refine ⟨?_, ?_, nodes⟩
  · cases action : e.operator? with
    | none => rfl
    | some operator => rw [isBareWord_of_operator action] at long; cases long
  · cases e with
    | command place name => cases long
    | _ => exact nofun

theorem kind_grouped (e : Expr) : e.grouped.kind = e.kind := by
  cases e with
  | call place body =>
      obtain ⟨items, whole⟩ := isCall_linked place (groupedAll body)
      rw [grouped, whole]
      rfl
  | _ => rfl

theorem regrouped_call {place : Location} {head : Expr} {rest : List Expr}
    (operator : head.operator? = none) (nodes : head.Everywhere Regrouped)
    (items : ∀ e ∈ rest, e.FreeItem) :
    (Expr.call place (head.asHead :: rest)).Everywhere Regrouped := by
  refine everywhere_call.mpr ⟨⟨⟨?_, headMarked_asHead _ _ _⟩, ?_⟩, ?_⟩
  · exact fun item member => (items item member).kind
  · intro item member
    rcases List.mem_cons.mp member with rfl | later
    · rw [operator?_asHead, operator]
    · exact (items item later).operator
  · intro item member
    rcases List.mem_cons.mp member with rfl | later
    · exact everywhere_asHead (fun _ _ => ⟨⟨trivial, trivial⟩, trivial⟩) nodes
    · exact (items item later).nodes

theorem chain_items (body : List Expr) :
    (∀ item ∈ (chain body).1, item ∈ body ∧ item.operator? = none) ∧
      (∀ item ∈ (chain body).1.tail, item ∈ body.tail) ∧
      ∀ link ∈ (chain body).2, ∀ item ∈ link.items, item ∈ body.tail ∧ item.operator? = none := by
  induction body with
  | nil => exact ⟨nofun, nofun, nofun⟩
  | cons e rest ih =>
      obtain ⟨first, -, links⟩ := ih
      have later : ∀ link ∈ (chain rest).2, ∀ item ∈ link.items,
          item ∈ rest ∧ item.operator? = none := fun link member item inside =>
        ⟨List.mem_of_mem_tail (links link member item inside).1, (links link member item inside).2⟩
      cases action : e.operator? with
      | some operator =>
          rw [chain_of_operator action]
          refine ⟨nofun, nofun, ?_⟩
          intro link member
          rcases List.mem_cons.mp member with rfl | others
          · exact first
          · exact later link others
      | none =>
          rw [chain_of_item action]
          refine ⟨?_, fun item member => (first item member).1, later⟩
          intro item member
          rcases List.mem_cons.mp member with rfl | inside
          · exact ⟨by simp, action⟩
          · exact ⟨by simp [(first item inside).1], (first item inside).2⟩

theorem regrouped_group {items : List Expr} (operators : ∀ e ∈ items, e.operator? = none)
    (nodes : ∀ e ∈ items, e.Everywhere Regrouped) (tail : ∀ e ∈ items.tail, e.kind ≠ .command)
    (place : Location) :
    (group items place).Everywhere Regrouped ∧ (group items place).isBareWord = false := by
  match items with
  | [] =>
      exact ⟨everywhere_call.mpr ⟨⟨⟨nofun, nofun⟩, nofun⟩, nofun⟩, rfl⟩
  | [e] =>
      cases word : e.isBareWord with
      | false =>
          rw [group_single word]
          exact ⟨nodes e (by simp), word⟩
      | true =>
          rw [group_word word]
          exact ⟨regrouped_call (operators e (by simp)) (nodes e (by simp)) nofun, rfl⟩
  | first :: second :: rest =>
      rw [group_many]
      refine ⟨regrouped_call (operators first (by simp)) (nodes first (by simp)) ?_, rfl⟩
      intro e member
      exact ⟨operators e (by simp [member]), tail e member, nodes e (by simp [member])⟩

theorem regrouped_join {link : Link} (items : ∀ e ∈ link.items, e.FreeItem) {before : Expr}
    (long : before.isBareWord = false) (nodes : before.Everywhere Regrouped) (place : Location) :
    (Expr.call place (link.join before)).Everywhere Regrouped := by
  have item := freeItem_of_not_bareWord long nodes
  unfold Link.join
  split
  · have plain : (Expr.command link.place sequenceName).operator? = none := by
      simp [operator?, bareWord?, operators, sequenceName]
    have group := regrouped_group (fun e member => (items e member).operator)
      (fun e member => (items e member).nodes)
      (fun e member => (items e (List.mem_of_mem_tail member)).kind) link.place
    have head : (Expr.command link.place sequenceName).Everywhere Regrouped :=
      everywhere_command.mpr ⟨⟨trivial, trivial⟩, trivial⟩
    refine regrouped_call plain head ?_
    intro e member
    simp only [List.mem_cons, List.not_mem_nil, or_false] at member
    rcases member with rfl | rfl
    · exact item
    · exact freeItem_of_not_bareWord group.2 group.1
  · split
    · rw [← asHead_of_not_bareWord long]
      exact regrouped_call item.operator nodes (List.forall_mem_nil _)
    · rename_i target rest shape
      rw [shape] at items
      have head := items target (by simp)
      split <;> rw [markHead_cons] <;> refine regrouped_call head.operator head.nodes ?_ <;>
        intro e member <;>
        simp only [List.mem_cons, List.mem_append, List.not_mem_nil, or_false] at member
      · rcases member with rfl | later
        · exact item
        · exact items e (by simp [later])
      · rcases member with later | rfl
        · exact items e (by simp [later])
        · exact item

theorem regrouped_joinLinks {links : List Link}
    (items : ∀ link ∈ links, ∀ e ∈ link.items, e.FreeItem) {first : Expr}
    (long : first.isBareWord = false) (nodes : first.Everywhere Regrouped) :
    (joinLinks first links).Everywhere Regrouped := by
  induction links generalizing first with
  | nil => exact nodes
  | cons link rest ih =>
      exact ih (fun other member => items other (by simp [member])) rfl
        (regrouped_join (items link (by simp)) long nodes first.place)

theorem regrouped_movedTo {place : Location} {e : Expr} (nodes : e.Everywhere Regrouped) :
    (e.movedTo place).Everywhere Regrouped := by
  cases e with
  | call other body =>
      obtain ⟨node, items⟩ := everywhere_call.mp nodes
      exact everywhere_call.mpr ⟨node, items⟩
  | _ => exact nodes

theorem regrouped_linked {place : Location} {body : List Expr}
    (node : (Expr.call place body).Marked) (nodes : ∀ e ∈ body, e.Everywhere Regrouped) :
    (linked place body).Everywhere Regrouped := by
  obtain ⟨first, tail, links⟩ := chain_items body
  unfold linked
  split
  · rename_i none
    rw [chain_fst_of_no_link none] at first
    exact everywhere_call.mpr ⟨⟨node, fun item member => (first item member).2⟩, nodes⟩
  · refine regrouped_movedTo ?_
    obtain ⟨grouped, long⟩ := regrouped_group (fun e member => (first e member).2)
      (fun e member => nodes e (first e member).1) (fun e member => node.1 e (tail e member)) place
    refine regrouped_joinLinks (fun link member e inside => ?_) long grouped
    obtain ⟨later, operator⟩ := links link member e inside
    exact ⟨operator, node.1 e later, nodes e (List.mem_of_mem_tail later)⟩

theorem marked_map_grouped {place : Location} {body : List Expr}
    (node : (Expr.call place body).Marked) : (Expr.call place (body.map grouped)).Marked := by
  cases body with
  | nil => exact ⟨nofun, nofun⟩
  | cons head rest =>
      constructor
      · intro item member
        obtain ⟨e, inside, rfl⟩ := List.mem_map.mp member
        rw [kind_grouped]
        exact node.1 e inside
      · rintro _ ⟨⟩ word
        rw [kind_grouped]
        exact node.2 head rfl (head.isBareWord_grouped ▸ word)

theorem regrouped_grouped {e : Expr} (marked : e.Everywhere Marked) :
    e.grouped.Everywhere Regrouped := by
  induction e using Expr.induction with
  | call place body ih =>
      obtain ⟨node, items⟩ := everywhere_call.mp marked
      rw [grouped_call]
      refine regrouped_linked (marked_map_grouped node) ?_
      intro item member
      obtain ⟨e, inside, rfl⟩ := List.mem_map.mp member
      exact ih e inside (items e inside)
  | array place body ih =>
      obtain ⟨node, items⟩ := everywhere_array.mp marked
      rw [grouped, groupedAll_eq_map]
      refine everywhere_array.mpr ⟨⟨⟨?_, trivial⟩, trivial⟩, ?_⟩ <;> intro item member <;>
        obtain ⟨e, inside, rfl⟩ := List.mem_map.mp member
      · rw [kind_grouped]
        exact node.1 e inside
      · exact ih e inside (items e inside)
  | map place body ih =>
      obtain ⟨node, items⟩ := everywhere_map.mp marked
      rw [grouped, groupedAll_eq_map]
      refine everywhere_map.mpr ⟨⟨⟨?_, trivial⟩, trivial⟩, ?_⟩ <;> intro item member <;>
        obtain ⟨e, inside, rfl⟩ := List.mem_map.mp member
      · rw [kind_grouped]
        exact node.1 e inside
      · exact ih e inside (items e inside)
  | value place literal => exact everywhere_value.mpr ⟨⟨trivial, trivial⟩, trivial⟩
  | command place name => exact everywhere_command.mpr ⟨⟨trivial, trivial⟩, trivial⟩
  | reference place name => exact everywhere_variable.mpr ⟨⟨trivial, trivial⟩, trivial⟩

theorem eq_grouped_of_withPipes {e tree : Expr} (done : e.withPipes = .ok tree) :
    tree = e.grouped := by
  have outcome := pipesOutcome_withPipes e
  rw [done] at outcome
  exact outcome.2

/-! ## Reading members -/

def Resolved (node : Expr) : Prop := node.Regrouped ∧ node.NameResolved

/-- What rewriting an item keeps about it, besides what it makes of its nodes. -/
structure Replaces (item e : Expr) : Prop where
  word : item.bareWord? = e.bareWord?
  kind : item.kind ≠ .command
  nodes : item.Everywhere Resolved

theorem mem_of_mapM_ok {change : Expr → Except Failure Expr} {body items : List Expr}
    (done : body.mapM change = .ok items) {item : Expr} (member : item ∈ items) :
    ∃ e ∈ body, change e = .ok item := by
  induction body generalizing items with
  | nil =>
      cases done
      cases member
  | cons e rest ih =>
      rw [List.mapM_cons] at done
      obtain ⟨head, first, others⟩ := exists_of_bind_ok done
      obtain ⟨tail, action, whole⟩ := exists_of_bind_ok others
      cases whole
      rcases List.mem_cons.mp member with rfl | later
      · exact ⟨e, by simp, first⟩
      · obtain ⟨x, inside, made⟩ := ih action later
        exact ⟨x, by simp [inside], made⟩

theorem not_mem_of_mem_splitAtPart {separator : Char} {bound : Nat} {piece text : List Char}
    (enough : text.length < bound) (clean : separator ∉ piece) {part : List Char}
    (member : part ∈ Text.splitAtPart [separator] bound piece text) : separator ∉ part := by
  induction bound generalizing piece text with
  | zero => cases enough
  | succ bound ih =>
      cases text with
      | nil =>
          simp only [Text.splitAtPart, List.mem_singleton] at member
          simpa [member] using clean
      | cons c rest =>
          have shorter : rest.length < bound := Nat.lt_of_succ_lt_succ enough
          by_cases same : separator = c
          · subst same
            simp only [Text.splitAtPart, Text.after?, if_pos, List.mem_cons] at member
            rcases member with rfl | later
            · simpa using clean
            · exact ih shorter (by simp) later
          · simp only [Text.splitAtPart, Text.after?, if_neg same] at member
            exact ih shorter (by simp [same, clean]) member

theorem isDotted_of_mem_segments {name part : String} (member : part ∈ segments name) :
    isDotted part = false := by
  obtain ⟨text, inside, rfl⟩ := List.mem_map.mp member
  have clean := not_mem_of_mem_splitAtPart (Nat.lt_succ_self _) (by simp) inside
  simpa [isDotted] using clean

theorem resolved_command {place : Location} {name : String}
    (resolved : (Expr.command place name).NameResolved) :
    (Expr.command place name).Everywhere Resolved :=
  everywhere_command.mpr ⟨⟨⟨trivial, trivial⟩, trivial⟩, resolved⟩

theorem operator?_readMember (place : Location) :
    (Expr.command place readMember).operator? = none := by
  simp [operator?, bareWord?, operators, readMember]

theorem operator?_writeMember (place : Location) :
    (Expr.command place writeMember).operator? = none := by
  simp [operator?, bareWord?, operators, writeMember]

theorem nameResolved_readMember (place : Location) :
    (Expr.command place readMember).NameResolved := by
  simp [NameResolved, isMemberCommand, isDotted, readMember]

theorem nameResolved_writeMember (place : Location) :
    (Expr.command place writeMember).NameResolved := by
  simp [NameResolved, isMemberCommand, isDotted, writeMember]

structure ResolvedItem (e : Expr) : Prop where
  operator : e.operator? = none
  kind : e.kind ≠ .command
  nodes : e.Everywhere Resolved

theorem resolvedItem_of_mem_keys {place : Location} {parts : List String} {path : List Expr}
    (done : keys place parts = .ok path) {key : Expr} (member : key ∈ path) :
    key.ResolvedItem := by
  unfold keys at done
  split at done
  · cases done
  · cases done
    obtain ⟨part, -, rfl⟩ := List.mem_map.mp member
    exact ⟨rfl, value_not_command, everywhere_value.mpr ⟨⟨⟨trivial, trivial⟩, trivial⟩, trivial⟩⟩

theorem resolved_call {place : Location} {head : Expr} {rest : List Expr}
    (operator : head.operator? = none) (marked : head.isBareWord = true → head.kind = .command)
    (nodes : head.Everywhere Resolved) (items : ∀ e ∈ rest, e.ResolvedItem) :
    (Expr.call place (head :: rest)).Everywhere Resolved := by
  refine everywhere_call.mpr ⟨⟨⟨⟨?_, ?_⟩, ?_⟩, trivial⟩, ?_⟩
  · exact fun item member => (items item member).kind
  · rintro _ ⟨⟩ word
    exact marked word
  · intro item member
    rcases List.mem_cons.mp member with rfl | later
    · exact operator
    · exact (items item later).operator
  · intro item member
    rcases List.mem_cons.mp member with rfl | later
    · exact nodes
    · exact (items item later).nodes

theorem resolved_memberLookup {place : Location} {name : String} {tree : Expr}
    (done : memberLookup place name = .ok tree) :
    tree.Everywhere Resolved ∧ ∃ body, tree = .call place body := by
  unfold memberLookup at done
  split at done
  · cases done
  · rename_i head parts shape
    split at done
    · cases done
    · obtain ⟨path, action, made⟩ := exists_of_bind_ok done
      cases made
      have first : head ∈ segments name := by simp [shape]
      have plain : isDotted head = false := isDotted_of_mem_segments first
      refine ⟨resolved_call (operator?_readMember place) (fun _ => rfl)
        (resolved_command (nameResolved_readMember place)) ?_, _, rfl⟩
      intro e member
      rcases List.mem_cons.mp member with rfl | later
      · have node : (Expr.variable place head).Everywhere Resolved :=
          everywhere_variable.mpr ⟨⟨⟨trivial, trivial⟩, trivial⟩, plain⟩
        exact ⟨rfl, variable_not_command, node⟩
      · exact resolvedItem_of_mem_keys action later

theorem replaces_of_call {tree e : Expr} (nodes : tree.Everywhere Resolved)
    (call : ∃ place body, tree = .call place body) (word : e.bareWord? = none) :
    tree.Replaces e := by
  obtain ⟨place, body, rfl⟩ := call
  exact ⟨by rw [word]; rfl, call_not_command, nodes⟩

theorem resolvedItem_of_replaces {item e : Expr} (replaces : item.Replaces e)
    (operator : e.operator? = none) : item.ResolvedItem :=
  ⟨by rw [operator?, replaces.word, ← operator?, operator], replaces.kind, replaces.nodes⟩

theorem resolved_memberItems {place commandPlace : Location} {name : String}
    {arguments function path : List Expr}
    (done : memberItems place commandPlace name arguments = .ok (function, path)) :
    (∃ reader, (reader = readMember ∨ reader = writeMember) ∧ function = [.command place reader]) ∧
      ∀ key ∈ path, key.ResolvedItem := by
  unfold memberItems at done
  simp only at done
  split at done
  · cases done
  · obtain ⟨found, action, made⟩ := exists_of_bind_ok done
    cases made
    refine ⟨?_, fun key member => resolvedItem_of_mem_keys action member⟩
    split
    · exact ⟨readMember, Or.inl rfl, rfl⟩
    · exact ⟨writeMember, Or.inr rfl, rfl⟩

theorem resolved_member_call {place commandPlace : Location} {name : String}
    {arguments : List Expr} (member : isMemberCommand name = true) {tree : Expr}
    (items : ∀ inner, arguments.mapM withMembers = .ok inner → ∀ e ∈ inner, e.ResolvedItem)
    (done : withMembers (.call place (.command commandPlace name :: arguments)) = .ok tree) :
    tree.Everywhere Resolved ∧ ∃ body, tree = .call place body := by
  rw [withMembers_call_of_member member] at done
  obtain ⟨⟨function, path⟩, action, later⟩ := exists_of_bind_ok done
  obtain ⟨inner, others, made⟩ := exists_of_bind_ok later
  cases made
  obtain ⟨⟨reader, kind, rfl⟩, keys⟩ := resolved_memberItems action
  have operator : (Expr.command place reader).operator? = none := by
    rcases kind with rfl | rfl
    · exact operator?_readMember place
    · exact operator?_writeMember place
  have resolved : (Expr.command place reader).NameResolved := by
    rcases kind with rfl | rfl
    · exact nameResolved_readMember place
    · exact nameResolved_writeMember place
  refine ⟨resolved_call operator (fun _ => rfl) (resolved_command resolved) ?_, _, rfl⟩
  -- The keys are put between the first argument and the others.
  intro e inside
  rcases List.mem_append.mp inside with front | back
  · rcases List.mem_append.mp front with first | key
    · exact items inner others e (List.mem_of_mem_take first)
    · exact keys e key
  · exact items inner others e (List.mem_of_mem_drop back)

theorem resolved_head {head tree : Expr}
    (other : ∀ place name, head = .command place name → isMemberCommand name = false)
    (operator : head.operator? = none) (marked : head.isBareWord = true → head.kind = .command)
    (items : head.kind ≠ .command → tree.Replaces head) (done : head.withMembers = .ok tree) :
    tree.operator? = none ∧ (tree.isBareWord = true → tree.kind = .command) ∧
      tree.Everywhere Resolved := by
  by_cases kind : head.kind = .command
  · cases head with
    | command place name =>
        rw [withMembers] at done
        split at done
        · obtain ⟨nodes, body, rfl⟩ := resolved_memberLookup done
          exact ⟨rfl, fun word => (by cases word), nodes⟩
        · rename_i program
          cases done
          refine ⟨operator, fun _ => rfl, resolved_command ⟨other place name rfl, fun dotted => ?_⟩⟩
          simpa [dotted] using program
    | _ => cases kind
  · have replaces := items kind
    have item := resolvedItem_of_replaces replaces operator
    refine ⟨item.operator, fun word => absurd (marked ?_) kind, item.nodes⟩
    rwa [isBareWord, ← replaces.word]

theorem resolved_other_call {place : Location} {body : List Expr} {tree : Expr}
    (node : (Expr.call place body).Regrouped)
    (other : ∀ place name, body.head? = some (.command place name) → isMemberCommand name = false)
    (items : ∀ e ∈ body, e.kind ≠ .command → ∀ item, e.withMembers = .ok item → item.Replaces e)
    (done : withMembers (.call place body) = .ok tree) :
    tree.Everywhere Resolved ∧ ∃ body, tree = .call place body := by
  rw [withMembers_call other] at done
  cases body with
  | nil =>
      cases done
      exact ⟨everywhere_call.mpr ⟨⟨node, trivial⟩, nofun⟩, [], rfl⟩
  | cons head rest =>
      rw [List.mapM_cons] at done
      obtain ⟨body, all, made⟩ := exists_of_bind_ok done
      cases made
      obtain ⟨item, first, later⟩ := exists_of_bind_ok all
      obtain ⟨inner, others, made⟩ := exists_of_bind_ok later
      cases made
      obtain ⟨operator, marked, nodes⟩ := resolved_head
        (fun place name same => other place name (by rw [same]; rfl))
        (node.2 head (by simp)) (node.1.2 head rfl)
        (fun kind => items head (by simp) kind item first) first
      refine ⟨resolved_call operator marked nodes ?_, _, rfl⟩
      intro e member
      obtain ⟨x, inside, made⟩ := mem_of_mapM_ok others member
      have replaces := items x (by simp [inside]) (node.1.1 x inside) e made
      exact resolvedItem_of_replaces replaces (node.2 x (by simp [inside]))

theorem exists_replaced_items {body : List Expr} {make : List Expr → Expr} {tree : Expr}
    (each : ∀ e ∈ body, ∀ item, e.withMembers = .ok item → item.Replaces e)
    (done : (do return make (← body.mapM withMembers)) = (.ok tree : Except Failure Expr)) :
    ∃ inner, tree = make inner ∧ ∀ item ∈ inner, item.kind ≠ .command ∧ item.Everywhere Resolved := by
  obtain ⟨inner, action, made⟩ := exists_of_bind_ok done
  cases made
  refine ⟨inner, rfl, fun item member => ?_⟩
  obtain ⟨e, inside, made⟩ := mem_of_mapM_ok action member
  exact ⟨(each e inside item made).kind, (each e inside item made).nodes⟩

theorem replaces_call {place : Location} {body : List Expr} {tree : Expr}
    (node : (Expr.call place body).Regrouped)
    (items : ∀ e ∈ body, e.kind ≠ .command → ∀ item, e.withMembers = .ok item → item.Replaces e)
    (done : withMembers (.call place body) = .ok tree) : tree.Replaces (.call place body) := by
  have made : tree.Everywhere Resolved ∧ ∃ body, tree = .call place body := by
    rcases memberCall_or_other body with ⟨commandPlace, name, arguments, rfl, member⟩ | other
    · refine resolved_member_call member ?_ done
      intro inner others e inside
      obtain ⟨x, among, made⟩ := mem_of_mapM_ok others inside
      have replaces := items x (by simp [among]) (node.1.1 x among) e made
      exact resolvedItem_of_replaces replaces (node.2 x (by simp [among]))
    · exact resolved_other_call node other items done
  obtain ⟨resolved, inner, whole⟩ := made
  exact replaces_of_call resolved ⟨place, inner, whole⟩ rfl

theorem replaces_withMembers {e : Expr} (nodes : e.Everywhere Regrouped)
    (kind : e.kind ≠ .command) {tree : Expr} (done : e.withMembers = .ok tree) :
    tree.Replaces e := by
  induction e using Expr.induction generalizing tree with
  | call place body ih =>
      obtain ⟨node, below⟩ := everywhere_call.mp nodes
      have items : ∀ e ∈ body, e.kind ≠ .command → ∀ item, e.withMembers = .ok item →
          item.Replaces e := fun e member kind item made => ih e member (below e member) kind made
      exact replaces_call node items done
  | array place body ih =>
      obtain ⟨node, below⟩ := everywhere_array.mp nodes
      rw [withMembers, withMembersAll_eq_mapM] at done
      obtain ⟨inner, rfl, items⟩ := exists_replaced_items (fun e member item made =>
        ih e member (below e member) (node.1.1 e member) made) done
      have kinds : (Expr.array place inner).CommandsAtHeads :=
        fun item member => (items item member).1
      exact ⟨rfl, array_not_command, everywhere_array.mpr
        ⟨⟨⟨⟨kinds, trivial⟩, trivial⟩, trivial⟩, fun item member => (items item member).2⟩⟩
  | map place body ih =>
      obtain ⟨node, below⟩ := everywhere_map.mp nodes
      rw [withMembers, withMembersAll_eq_mapM] at done
      obtain ⟨inner, rfl, items⟩ := exists_replaced_items (fun e member item made =>
        ih e member (below e member) (node.1.1 e member) made) done
      have kinds : (Expr.map place inner).CommandsAtHeads :=
        fun item member => (items item member).1
      exact ⟨rfl, map_not_command, everywhere_map.mpr
        ⟨⟨⟨⟨kinds, trivial⟩, trivial⟩, trivial⟩, fun item member => (items item member).2⟩⟩
  | value place literal =>
      cases done
      exact ⟨rfl, value_not_command, everywhere_value.mpr ⟨everywhere_value.mp nodes, trivial⟩⟩
  -- A command is looked at only with its call.
  | command place name => exact absurd rfl kind
  | reference place name =>
      rw [withMembers] at done
      split at done
      · obtain ⟨resolved, inner, whole⟩ := resolved_memberLookup done
        exact replaces_of_call resolved ⟨place, inner, whole⟩ rfl
      · rename_i plain
        cases done
        exact ⟨rfl, variable_not_command, everywhere_variable.mpr ⟨everywhere_variable.mp nodes, by
          simpa [NameResolved] using plain⟩⟩

/-! ## Splicing sequences -/

theorem kind_withSequences (e : Expr) : e.withSequences.kind = e.kind := by
  unfold withSequences
  split <;> rfl

theorem bareWord?_withSequences (e : Expr) : e.withSequences.bareWord? = e.bareWord? := by
  unfold withSequences
  split <;> rfl

theorem operator?_withSequences (e : Expr) : e.withSequences.operator? = e.operator? := by
  rw [operator?, bareWord?_withSequences, ← operator?]

theorem sequence?_of_head {head : Expr} (kind : head.kind ≠ .command) (place : Location)
    (rest : List Expr) : (Expr.call place (head :: rest)).sequence? = none := by
  cases head with
  | command commandPlace name => exact absurd rfl kind
  | _ => rfl

theorem sequence?_withSequences {e : Expr} (other : e.sequence? = none) :
    e.withSequences.sequence? = none := by
  cases e with
  | call place body =>
      rw [withSequences_call other]
      cases body with
      | nil => rfl
      | cons head rest =>
          cases head with
          | command commandPlace name =>
              simp only [sequence?, ite_eq_right_iff, reduceCtorEq, imp_false] at other
              simp [sequence?, withSequences, other]
          | _ =>
              refine sequence?_of_head ?_ place _
              rw [kind_withSequences]
              intro kind
              cases kind
  | _ => rfl

theorem mem_splice {arguments : List Expr} {item : Expr} (member : item ∈ splice arguments) :
    (item ∈ arguments ∧ item.sequence? = none) ∨
      ∃ e ∈ arguments, ∃ inner, e.sequence? = some inner ∧ item ∈ inner := by
  obtain ⟨e, inside, found⟩ := List.mem_flatMap.mp member
  cases action : e.sequence? with
  | none =>
      simp only [action, Option.getD_none, List.mem_singleton] at found
      subst found
      exact Or.inl ⟨inside, action⟩
  | some inner =>
      simp only [action, Option.getD_some] at found
      exact Or.inr ⟨e, inside, inner, action, found⟩

structure FlatItem (e : Expr) : Prop where
  sequence : e.sequence? = none
  operator : e.operator? = none
  kind : e.kind ≠ .command
  nodes : e.Everywhere NodeNormal

theorem flatItem_of_mem_splice {arguments : List Expr}
    (operators : ∀ e ∈ arguments, e.operator? = none) (kinds : ∀ e ∈ arguments, e.kind ≠ .command)
    (nodes : ∀ e ∈ arguments, e.Everywhere NodeNormal) {item : Expr}
    (member : item ∈ splice arguments) : item.FlatItem := by
  rcases mem_splice member with ⟨inside, flat⟩ | ⟨e, inside, inner, found, deeper⟩
  · exact ⟨flat, operators item inside, kinds item inside, nodes item inside⟩
  · obtain ⟨place, commandPlace, rfl⟩ := eq_call_of_sequence? found
    obtain ⟨node, below⟩ := everywhere_call.mp (nodes _ inside)
    exact ⟨node.sequences inner found item deeper, node.operators item (by simp [deeper]),
      node.commands item deeper, below item (by simp [deeper])⟩

theorem normal_other_call {place : Location} {body : List Expr}
    (node : (Expr.call place body).Resolved) (found : (Expr.call place body).sequence? = none)
    (items : ∀ e ∈ body, e.withSequences.Everywhere NodeNormal) :
    (Expr.call place body).withSequences.Everywhere NodeNormal := by
  obtain ⟨⟨⟨commands, head⟩, operators⟩, -⟩ := node
  have flat := sequenceFlat_of_none (sequence?_withSequences found)
  rw [withSequences_call found] at flat ⊢
  refine everywhere_call.mpr ⟨⟨?_, ?_, ?_, trivial, flat⟩, ?_⟩
  · intro item member
    rw [← List.map_tail] at member
    obtain ⟨e, inside, rfl⟩ := List.mem_map.mp member
    rw [kind_withSequences]
    exact commands e inside
  · intro item first word
    rw [List.head?_map] at first
    obtain ⟨e, inside, rfl⟩ := Option.map_eq_some_iff.mp first
    rw [isBareWord, bareWord?_withSequences, ← isBareWord] at word
    rw [kind_withSequences]
    exact head e inside word
  · intro item member
    obtain ⟨e, inside, rfl⟩ := List.mem_map.mp member
    rw [operator?_withSequences]
    exact operators e inside
  · intro item member
    obtain ⟨e, inside, rfl⟩ := List.mem_map.mp member
    exact items e inside

/-- The arguments of an argument that is itself a sequence are no sequences any more. -/
theorem normal_sequence {place commandPlace : Location} {arguments : List Expr}
    (node : (Expr.call place (.command commandPlace sequenceName :: arguments)).Resolved)
    (items : ∀ e ∈ arguments, e.withSequences.Everywhere NodeNormal)
    (head : (Expr.command commandPlace sequenceName).Everywhere NodeNormal) :
    (Expr.call place (.command commandPlace sequenceName :: arguments)).withSequences.Everywhere
      NodeNormal := by
  obtain ⟨⟨⟨commands, -⟩, operators⟩, -⟩ := node
  have flat : ∀ item ∈ splice (arguments.map withSequences), item.FlatItem := by
    intro item
    refine flatItem_of_mem_splice ?_ ?_ ?_ <;> intro e member <;>
      obtain ⟨x, inside, rfl⟩ := List.mem_map.mp member
    · rw [operator?_withSequences]
      exact operators x (by simp [inside])
    · rw [kind_withSequences]
      exact commands x inside
    · exact items x inside
  rw [withSequences_sequence]
  refine everywhere_call.mpr ⟨⟨?_, ?_, ?_, trivial, ?_⟩, ?_⟩
  · exact fun item member => (flat item member).kind
  · rintro _ ⟨⟩ -
    rfl
  · intro item member
    rcases List.mem_cons.mp member with rfl | later
    · exact operators _ (by simp)
    · exact (flat item later).operator
  · intro inner sequence
    simp only [sequence?, if_pos, Option.some.injEq] at sequence
    subst sequence
    exact fun item member => (flat item member).sequence
  · intro item member
    rcases List.mem_cons.mp member with rfl | later
    · exact head
    · exact (flat item later).nodes

theorem normal_withSequences {e : Expr} (resolved : e.Everywhere Resolved) :
    e.withSequences.Everywhere NodeNormal := by
  induction e using Expr.induction with
  | call place body ih =>
      obtain ⟨node, below⟩ := everywhere_call.mp resolved
      have items : ∀ e ∈ body, e.withSequences.Everywhere NodeNormal := fun e member =>
        ih e member (below e member)
      cases found : (Expr.call place body).sequence? with
      | none => exact normal_other_call node found items
      | some arguments =>
          obtain ⟨p, commandPlace, whole⟩ := eq_call_of_sequence? found
          cases whole
          exact normal_sequence node (fun e member => items e (by simp [member]))
            (items (.command commandPlace sequenceName) (by simp))
  | array place body ih =>
      obtain ⟨⟨⟨⟨commands, -⟩, -⟩, -⟩, below⟩ := everywhere_array.mp resolved
      rw [withSequences, withSequencesAll_eq_map]
      have flat : (Expr.array place (body.map withSequences)).SequenceFlat :=
        sequenceFlat_of_none rfl
      refine everywhere_array.mpr ⟨⟨?_, trivial, trivial, trivial, flat⟩, ?_⟩ <;>
        intro item member <;> obtain ⟨e, inside, rfl⟩ := List.mem_map.mp member
      · rw [kind_withSequences]
        exact commands e inside
      · exact ih e inside (below e inside)
  | map place body ih =>
      obtain ⟨⟨⟨⟨commands, -⟩, -⟩, -⟩, below⟩ := everywhere_map.mp resolved
      rw [withSequences, withSequencesAll_eq_map]
      have flat : (Expr.map place (body.map withSequences)).SequenceFlat :=
        sequenceFlat_of_none rfl
      refine everywhere_map.mpr ⟨⟨?_, trivial, trivial, trivial, flat⟩, ?_⟩ <;>
        intro item member <;> obtain ⟨e, inside, rfl⟩ := List.mem_map.mp member
      · rw [kind_withSequences]
        exact commands e inside
      · exact ih e inside (below e inside)
  | value place literal =>
      exact everywhere_value.mpr ⟨trivial, trivial, trivial, trivial, sequenceFlat_of_none rfl⟩
  | command place name =>
      exact everywhere_command.mpr
        ⟨trivial, trivial, trivial, (everywhere_command.mp resolved).2, sequenceFlat_of_none rfl⟩
  | reference place name =>
      exact everywhere_variable.mpr
        ⟨trivial, trivial, trivial, (everywhere_variable.mp resolved).2, sequenceFlat_of_none rfl⟩

/-! ## Heights -/

theorem heightAll_le {body : List Expr} {bound : Nat} :
    heightAll body ≤ bound ↔ ∀ e ∈ body, e.height ≤ bound := by
  induction body with
  | nil => simp [heightAll]
  | cons e rest ih => rw [heightAll, Nat.max_le, ih, List.forall_mem_cons]

theorem height_le_of_mem {e : Expr} {body : List Expr} (member : e ∈ body) :
    e.height ≤ heightAll body := heightAll_le.mp (Nat.le_refl _) e member

theorem height_withSequences (e : Expr) : e.withSequences.height ≤ e.height := by
  have row : ∀ body : List Expr, (∀ e ∈ body, e.withSequences.height ≤ e.height) →
      heightAll (body.map withSequences) ≤ heightAll body := by
    intro body each
    refine heightAll_le.mpr fun item member => ?_
    obtain ⟨e, inside, rfl⟩ := List.mem_map.mp member
    exact Nat.le_trans (each e inside) (height_le_of_mem inside)
  induction e using Expr.induction with
  | call place body ih =>
      cases found : (Expr.call place body).sequence? with
      | none =>
          rw [withSequences_call found, height, height]
          exact Nat.succ_le_succ (row body ih)
      | some arguments =>
          obtain ⟨p, commandPlace, whole⟩ := eq_call_of_sequence? found
          cases whole
          rw [withSequences_sequence, height, height]
          refine Nat.succ_le_succ (heightAll_le.mpr fun item member => ?_)
          have inner := row arguments fun e member => ih e (by simp [member])
          have outer : heightAll arguments ≤
              heightAll (.command commandPlace sequenceName :: arguments) :=
            Nat.le_max_right _ _
          rcases List.mem_cons.mp member with rfl | later
          · exact height_le_of_mem (by simp)
          · rcases mem_splice later with ⟨inside, -⟩ | ⟨e, inside, spliced, sequence, deeper⟩
            · exact Nat.le_trans (height_le_of_mem inside) (Nat.le_trans inner outer)
            -- What is spliced in stood two levels lower.
            · obtain ⟨place, commandPlace, rfl⟩ := eq_call_of_sequence? sequence
              have below := height_le_of_mem inside
              have step : item.height ≤ heightAll (.command commandPlace sequenceName :: spliced) :=
                height_le_of_mem (by simp [deeper])
              rw [height] at below
              omega
  | array place body ih =>
      rw [withSequences, withSequencesAll_eq_map, height, height]
      exact Nat.succ_le_succ (row body ih)
  | map place body ih =>
      rw [withSequences, withSequencesAll_eq_map, height, height]
      exact Nat.succ_le_succ (row body ih)
  | value place literal => exact Nat.le_refl _
  | command place name => exact Nat.le_refl _
  | reference place name => exact Nat.le_refl _

/-! ## The statement -/

theorem height_le_of_checkDepth {limit : Nat} {e tree : Expr}
    (done : e.checkDepth limit = .ok tree) : tree = e ∧ e.height ≤ limit := by
  unfold checkDepth at done
  split at done
  · cases done
  · rename_i shallow
    cases done
    exact ⟨rfl, Nat.le_of_not_lt shallow⟩

theorem stages_of_desugar {e tree : Expr} (done : e.desugar = .ok tree) :
    ∃ piped read, e.withCommands.withPipes = .ok piped ∧ piped.withMembers = .ok read ∧
      read.height ≤ depthLimits.trees ∧ tree = read.withSequences := by
  unfold desugar at done
  obtain ⟨passes, all, made⟩ := exists_of_bind_ok done
  cases made
  unfold Expr.passes at all
  dsimp only at all
  obtain ⟨pipes, joined, rest⟩ := exists_of_bind_ok all
  obtain ⟨members, read, made⟩ := exists_of_bind_ok rest
  cases made
  obtain ⟨piped, pipedOk, fits⟩ := exists_of_bind_ok joined
  obtain ⟨found, foundOk, bounded⟩ := exists_of_bind_ok read
  obtain ⟨rfl, -⟩ := height_le_of_checkDepth fits
  obtain ⟨rfl, shallow⟩ := height_le_of_checkDepth bounded
  exact ⟨_, _, pipedOk, foundOk, shallow, rfl⟩

theorem normal_of_desugar {e tree : Expr} (placed : e.Placed) (done : e.desugar = .ok tree) :
    tree.IsNormal ∧ tree.height ≤ depthLimits.trees := by
  obtain ⟨piped, read, pipes, members, shallow, rfl⟩ := stages_of_desugar done
  have whole := eq_grouped_of_withPipes pipes
  have kind : piped.kind ≠ .command := by
    rw [whole, kind_grouped, kind_withCommands]
    exact placed.1
  have regrouped : piped.Everywhere Regrouped :=
    whole ▸ regrouped_grouped (marked_withCommands placed.2)
  have replaces := replaces_withMembers regrouped kind members
  refine ⟨⟨?_, normal_withSequences replaces.nodes⟩,
    Nat.le_trans (height_withSequences read) shallow⟩
  rw [kind_withSequences]
  exact replaces.kind

/-- What is read is in normal form, and a second run of the passes leaves it as it is. -/
theorem read_gives_normal_form {source : String} {tree : Expr}
    (done : read source = .ok (some tree)) : tree.IsNormal ∧ tree.desugar = .ok tree := by
  unfold read at done
  cases parsed : ofSource source with
  | error failure => simp [parsed, bind, Except.bind] at done
  | ok result =>
      cases result with
      | none => simp [parsed, bind, Except.bind, pure, Except.pure] at done
      | some e =>
          cases action : e.desugar with
          | error failure => simp [parsed, action, bind, Except.bind] at done
          | ok found =>
              simp only [parsed, action, bind, Except.bind, pure, Except.pure, Except.ok.injEq,
                Option.some.injEq] at done
              subst done
              obtain ⟨normal, shallow⟩ := normal_of_desugar (placed_of_ofSource parsed) action
              exact ⟨normal, desugar_of_normal normal.2 shallow⟩

/-- The tree of `ls $a.b | f ; g ; (.k $x)`. -/
def pipedProgram : Expr :=
  .call ⟨1, 1⟩ [.command ⟨1, 17⟩ "do",
    .call ⟨1, 1⟩ [.command ⟨1, 11⟩ "f",
      .call ⟨1, 1⟩ [.command ⟨1, 1⟩ "ls",
        .call ⟨1, 4⟩ [.command ⟨1, 4⟩ "get", .variable ⟨1, 4⟩ "a", .value ⟨1, 4⟩ (.quoted "b")]]],
    .call ⟨1, 15⟩ [.command ⟨1, 15⟩ "g"],
    .call ⟨1, 19⟩ [.command ⟨1, 19⟩ "get", .variable ⟨1, 23⟩ "x", .value ⟨1, 20⟩ (.quoted "k")]]

theorem pipedProgram_normal :
    read "ls $a.b | f ; g ; (.k $x)" = .ok (some pipedProgram) ∧
      pipedProgram.IsNormal ∧ pipedProgram.desugar = .ok pipedProgram := by
  have done : read "ls $a.b | f ; g ; (.k $x)" = .ok (some pipedProgram) := by cbv
  exact ⟨done, read_gives_normal_form done⟩

end ShellLisp.Expr
