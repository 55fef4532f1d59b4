import ShellLisp.Proofs.Reading.Passes
import ShellLisp.Proofs.Reading.Rows

/-!
# Trees that can be written and read back

What every tree that is read has: leaves that the lexer reads back, forms that the parser accepts,
and literals that are equal to themselves. Parsing gives such trees and the passes keep them so.
-/

namespace ShellLisp
open Text

/-! ## Names -/

theorem spells_variable {name : String} (some : name ≠ "")
    (inside : ∀ x ∈ name.toList, isWordBreak x = false) :
    Spells ('$' :: name.toList) (.variable name) := by
  refine spells_word (by decide) inside ?_
  cases shape : name.toList with
  | nil => exact absurd (String.toList_eq_nil_iff.mp shape) some
  | cons first rest =>
      rw [Lexeme.ofWord, ← shape, String.ofList_toList]

theorem noBreak_of_spells {c : Char} {more : List Char} {lexeme : Lexeme}
    (spells : Spells (c :: more) lexeme) (starts : startsWord c = true) :
    ∀ x ∈ c :: more, isWordBreak x = false := by
  obtain ⟨_, _, same, first⟩ := spells
  cases same
  have cut := first .start 0 [] ends_nil
  rw [first_of_startsWord starts, List.append_nil] at cut
  split at cut
  · simp only [Except.ok.injEq, Cut.mk.injEq] at cut
    have whole : more.takeWhile (!isWordBreak ·) = more :=
      (List.takeWhile_prefix _).eq_of_length cut.1
    refine List.forall_mem_cons.mpr ⟨?_, fun x member => ?_⟩
    · simp only [startsWord, Bool.not_eq_true', Bool.or_eq_false_iff] at starts
      exact starts.1.1
    · rw [← whole] at member
      simpa using List.all_eq_true.mp List.all_takeWhile x member
  · cases cut

theorem noBreak_variable {name : String} (spells : Spells ('$' :: name.toList) (.variable name)) :
    ∀ x ∈ name.toList, isWordBreak x = false :=
  fun x member => noBreak_of_spells spells (by decide) x (List.mem_cons_of_mem _ member)

theorem plain_operator : ∀ {text : String}, text ∈ operators → '.' ∉ text.toList := by
  intro text member
  simp only [operators, List.mem_cons, List.not_mem_nil, or_false] at member
  rcases member with rfl | rfl | rfl <;> decide

/-- A word with a dot is no operator, so it holds no character that ends words. -/
theorem noBreak_dotted {name : String} (spells : Spells name.toList (.word name))
    (dotted : '.' ∈ name.toList) : ∀ x ∈ name.toList, isWordBreak x = false := by
  have whole := spells
  obtain ⟨c, more, shape, first⟩ := spells
  have cut := firstPiece_of_first (first .start 0 [] ends_nil)
  rw [shape] at whole ⊢
  refine noBreak_of_spells whole ?_
  generalize same : (⟨more.length, some (.word name), 0⟩ : Cut) = piece at cut
  have said := congrArg Cut.lexeme same
  cases cut with
  | operator more is =>
      cases said
      exact absurd dotted (plain_operator is)
  | word starts read => exact starts
  | _ => cases said

theorem mem_join {separator part : List Char} {pieces : List (List Char)} (member : part ∈ pieces)
    {c : Char} (inside : c ∈ part) : c ∈ join separator pieces := by
  induction pieces with
  | nil => cases member
  | cons piece rest ih =>
      cases rest with
      | nil =>
          rw [List.mem_singleton] at member
          subst member
          exact inside
      | cons next others =>
          rw [join_cons_of_ne_nil _ _ (List.cons_ne_nil _ _), List.append_assoc]
          rcases List.mem_cons.mp member with rfl | later
          · exact List.mem_append_left _ inside
          · exact List.mem_append_right _ (List.mem_append_right _ (ih later))

theorem mem_of_mem_segments {name part : String} (member : part ∈ Expr.segments name) {c : Char}
    (inside : c ∈ part.toList) : c ∈ name.toList := by
  obtain ⟨text, among, rfl⟩ := List.mem_map.mp member
  rw [← join_split ['.'] name.toList]
  exact mem_join among (by simpa using inside)

namespace Expr

/-- A node that can be written and read back. -/
structure Legible (node : Expr) : Prop where
  counted : node.Counted
  spelled : node.LeafSpelled
  same : node.SelfSame

theorem legible_call {place : Location} {body : List Expr} (some : body ≠ [])
    (items : ∀ e ∈ body, e.Everywhere Legible) : (Expr.call place body).Everywhere Legible :=
  everywhere_call.mpr ⟨⟨some, trivial, trivial⟩, items⟩

theorem legible_array {place : Location} {body : List Expr}
    (items : ∀ e ∈ body, e.Everywhere Legible) : (Expr.array place body).Everywhere Legible :=
  everywhere_array.mpr ⟨⟨trivial, trivial, trivial⟩, items⟩

theorem legible_map {place : Location} {body : List Expr} (pairs : body.length % 2 = 0)
    (items : ∀ e ∈ body, e.Everywhere Legible) : (Expr.map place body).Everywhere Legible :=
  everywhere_map.mpr ⟨⟨pairs, trivial, trivial⟩, items⟩

theorem legible_command (place : Location) {name : String}
    (spelled : Spells name.toList (.word name)) : (Expr.command place name).Everywhere Legible :=
  everywhere_command.mpr ⟨trivial, spelled, trivial⟩

theorem legible_variable (place : Location) {name : String}
    (spelled : Spells ('$' :: name.toList) (.variable name)) :
    (Expr.variable place name).Everywhere Legible :=
  everywhere_variable.mpr ⟨trivial, spelled, trivial⟩

theorem legible_ofText (place : Location) (text : String) :
    (ofText place text).Everywhere Legible := by
  obtain ⟨spelled, same⟩ := readBack_quoted text place _ rfl
  exact everywhere_value.mpr ⟨trivial, spelled, same⟩

/-! ## Parsing -/

theorem legible_leaf? {lexeme : Lexeme} (readBack : ReadBack lexeme) {place : Location} {e : Expr}
    (leaf : lexeme.leaf? place = some e) : e.Everywhere Legible := by
  obtain ⟨spelled, same⟩ := readBack place e leaf
  refine everywhere_of_leaf? leaf ⟨?_, ?_, same⟩
  · cases lexeme <;> cases leaf <;> trivial
  · cases lexeme <;> cases leaf <;> exact spelled

/-- A node of a tree that was parsed and not yet made a statement. -/
def Unmarked (node : Expr) : Prop := node.Legible ∧ node.kind ≠ .command

theorem forms_unmarked : Parsing.KeptByForms (Everywhere Unmarked) := by
  intro opener place body opening admits items
  have legible : ∀ e ∈ body, e.Everywhere Legible := fun e member node inside =>
    (items e member node inside).1
  rcases isOpening_iff.mp opening with rfl | rfl | rfl
  · refine everywhere_call.mpr ⟨⟨⟨?_, trivial, trivial⟩, by rintro ⟨⟩⟩, items⟩
    simpa [Counted] using admits.1 rfl
  · exact everywhere_array.mpr ⟨⟨⟨trivial, trivial, trivial⟩, by rintro ⟨⟩⟩, items⟩
  · exact everywhere_map.mpr ⟨⟨⟨admits.2 rfl, trivial, trivial⟩, by rintro ⟨⟩⟩, items⟩

theorem leaves_unmarked {source : String} {tokens : List Token}
    (lexed : Token.lex source = .ok tokens) :
    Parsing.HeldByLeaves (Everywhere Unmarked) tokens := by
  intro token member e leaf
  have legible := legible_leaf? (readBack_of_lex lexed token member) leaf
  refine everywhere_of_leaf? leaf ⟨legible e e.self_mem_nodes, ?_⟩
  generalize token.lexeme = lexeme at leaf
  cases lexeme <;> cases leaf <;> nofun

/-! ## Marking commands -/

theorem legible_asHead {e : Expr} (legible : e.Everywhere Legible) :
    e.asHead.Everywhere Legible := by
  unfold asHead
  split
  · exact legible_command _ (everywhere_value.mp legible).spelled
  · exact legible

theorem legible_markHead {body : List Expr} (legible : ∀ e ∈ body, e.Everywhere Legible) :
    ∀ e ∈ markHead body, e.Everywhere Legible := by
  cases body with
  | nil => exact legible
  | cons head rest =>
      obtain ⟨first, others⟩ := List.forall_mem_cons.mp legible
      rw [markHead_cons]
      exact List.forall_mem_cons.mpr ⟨legible_asHead first, others⟩

theorem markHead_ne_nil {body : List Expr} (some : body ≠ []) : markHead body ≠ [] := by
  cases body with
  | nil => exact absurd rfl some
  | cons head rest => rw [markHead_cons]; exact List.cons_ne_nil _ _

theorem legible_withCommands {e : Expr} (legible : e.Everywhere Legible) :
    e.withCommands.Everywhere Legible := by
  induction e using Expr.induction with
  | call place body ih =>
      obtain ⟨node, items⟩ := everywhere_call.mp legible
      rw [withCommands, withCommandsAll_eq_map]
      have some : body.map withCommands ≠ [] := fun empty =>
        node.counted (List.map_eq_nil_iff.mp empty)
      refine legible_call (markHead_ne_nil some) (legible_markHead ?_)
      exact List.forall_mem_map.mpr fun e member => ih e member (items e member)
  | array place body ih =>
      obtain ⟨-, items⟩ := everywhere_array.mp legible
      rw [withCommands, withCommandsAll_eq_map]
      exact legible_array (List.forall_mem_map.mpr fun e member => ih e member (items e member))
  | map place body ih =>
      obtain ⟨node, items⟩ := everywhere_map.mp legible
      rw [withCommands, withCommandsAll_eq_map]
      refine legible_map ?_ (List.forall_mem_map.mpr fun e member => ih e member (items e member))
      rw [List.length_map]
      exact node.counted
  | value place literal => exact legible
  | command place name => exact legible
  | reference place name => exact legible

/-! ## Joining groups -/

theorem legible_sequenceName (place : Location) :
    (Expr.command place sequenceName).Everywhere Legible := by
  have spelled : Spells ['d', 'o'] (.word "do") :=
    spells_word (by decide) (by simp [isWordBreak]) (by cbv)
  exact legible_command place spelled

theorem legible_group {items : List Expr} (some : items ≠ [])
    (legible : ∀ e ∈ items, e.Everywhere Legible) (place : Location) :
    (group items place).Everywhere Legible := by
  have grouped : ∀ place, (Expr.call place (markHead items)).Everywhere Legible :=
    fun _ => legible_call (markHead_ne_nil some) (legible_markHead legible)
  unfold group
  split
  · split
    · exact grouped _
    · exact legible _ (by simp)
  · exact grouped _

theorem legible_items {split : Split} (left : split.left ≠ []) (right : split.right ≠ [])
    (before : ∀ e ∈ split.left, e.Everywhere Legible)
    (behind : ∀ e ∈ split.right, e.Everywhere Legible) :
    split.items ≠ [] ∧ ∀ e ∈ split.items, e.Everywhere Legible := by
  obtain ⟨leftItems, place, operator, rightItems⟩ := split
  have leftGroup := legible_group left before place
  have rightGroup := legible_group right behind place
  unfold Split.items
  dsimp only
  split
  · exact ⟨List.cons_ne_nil _ _, by simp [legible_sequenceName place, leftGroup, rightGroup]⟩
  · cases rightItems with
    | nil => exact absurd rfl right
    | cons target rest =>
        obtain ⟨first, others⟩ := List.forall_mem_cons.mp behind
        dsimp only
        split
        · refine ⟨markHead_ne_nil (List.cons_ne_nil _ _), legible_markHead ?_⟩
          exact List.forall_mem_cons.mpr ⟨first, List.forall_mem_cons.mpr ⟨leftGroup, others⟩⟩
        · refine ⟨markHead_ne_nil (List.cons_ne_nil _ _), legible_markHead ?_⟩
          refine List.forall_mem_cons.mpr ⟨first, List.forall_mem_append.mpr ⟨others, ?_⟩⟩
          simpa using leftGroup

theorem length_of_mapM_ok {change : Expr → Except Failure Expr} {body items : List Expr}
    (done : body.mapM change = .ok items) : items.length = body.length := by
  induction body generalizing items with
  | nil =>
      cases done
      rfl
  | cons e rest ih =>
      rw [List.mapM_cons] at done
      obtain ⟨head, -, others⟩ := exists_of_bind_ok done
      obtain ⟨tail, action, made⟩ := exists_of_bind_ok others
      cases made
      rw [List.length_cons, List.length_cons, ih action]

theorem legible_regroup {body items : List Expr} (some : body ≠ [])
    (legible : ∀ e ∈ body, e.Everywhere Legible) (done : regroup body = .ok items) :
    items ≠ [] ∧ ∀ e ∈ items, e.Everywhere Legible := by
  unfold regroup at done
  split at done
  · cases done
    exact ⟨some, legible⟩
  · rename_i split found
    obtain ⟨operator, whole, -, -⟩ := append_of_splitLast? found
    rw [whole] at legible
    obtain ⟨before, behind⟩ := List.forall_mem_append.mp legible
    split at done
    · cases done
    · rename_i left
      split at done
      · cases done
      · rename_i right
        cases done
        exact legible_items (by simpa using left) (by simpa using right) before
          (List.forall_mem_cons.mp behind).2

theorem legible_mapM {change : Expr → Except Failure Expr} {body items : List Expr}
    (each : ∀ e ∈ body, ∀ tree, change e = .ok tree → tree.Everywhere Legible)
    (done : body.mapM change = .ok items) : ∀ e ∈ items, e.Everywhere Legible := by
  intro item member
  obtain ⟨e, inside, made⟩ := mem_of_mapM_ok done member
  exact each e inside item made

theorem ne_nil_of_mapM_ok {change : Expr → Except Failure Expr} {body items : List Expr}
    (some : body ≠ []) (done : body.mapM change = .ok items) : items ≠ [] := by
  rintro rfl
  exact some (List.length_eq_zero_iff.mp (length_of_mapM_ok done).symm)

theorem legible_withPipes {e tree : Expr} (legible : e.Everywhere Legible)
    (done : e.withPipes = .ok tree) : tree.Everywhere Legible := by
  -- Splitting at an operator moves items into calls that are no part of the tree, only smaller.
  induction size : e.size using Nat.strongRecOn generalizing e tree with
  | ind bound ih =>
      subst size
      cases e with
      | call place body =>
          obtain ⟨node, below⟩ := everywhere_call.mp legible
          rw [withPipes_call] at done
          obtain ⟨items, joined, rest⟩ := exists_of_bind_ok done
          obtain ⟨inner, action, made⟩ := exists_of_bind_ok rest
          cases made
          obtain ⟨some, inside⟩ := legible_regroup node.counted below joined
          refine legible_call (ne_nil_of_mapM_ok some action) (legible_mapM ?_ action)
          exact fun e member tree made =>
            ih e.size (size_mem_regroup place joined member) (inside e member) made rfl
      | array place body =>
          obtain ⟨-, below⟩ := everywhere_array.mp legible
          rw [withPipes_array] at done
          obtain ⟨inner, action, made⟩ := exists_of_bind_ok done
          cases made
          refine legible_array (legible_mapM (fun e member tree made => ?_) action)
          exact ih e.size (Nat.lt_succ_of_le (size_le_sizeAll member)) (below e member) made rfl
      | map place body =>
          obtain ⟨node, below⟩ := everywhere_map.mp legible
          rw [withPipes_map] at done
          obtain ⟨inner, action, made⟩ := exists_of_bind_ok done
          cases made
          refine legible_map ?_ (legible_mapM (fun e member tree made => ?_) action)
          · rw [length_of_mapM_ok action]
            exact node.counted
          · exact ih e.size (Nat.lt_succ_of_le (size_le_sizeAll member)) (below e member) made rfl
      | value place literal =>
          simp only [withPipes] at done
          cases done
          exact legible
      | command place name =>
          simp only [withPipes] at done
          cases done
          exact legible
      | «variable» place name =>
          simp only [withPipes] at done
          cases done
          exact legible

/-! ## Reading members -/

theorem legible_keys {place : Location} {parts : List String} {path : List Expr}
    (done : keys place parts = .ok path) : ∀ e ∈ path, e.Everywhere Legible := by
  unfold keys at done
  split at done
  · cases done
  · cases done
    exact List.forall_mem_map.mpr fun part _ => legible_ofText place part

theorem legible_member (place : Location) {function : String}
    (member : function = readMember ∨ function = writeMember) :
    (Expr.command place function).Everywhere Legible := by
  have read : Spells ['g', 'e', 't'] (.word "get") :=
    spells_word (by decide) (by simp [isWordBreak]) (by cbv)
  have write : Spells ['s', 'e', 't'] (.word "set") :=
    spells_word (by decide) (by simp [isWordBreak]) (by cbv)
  rcases member with rfl | rfl
  · exact legible_command place read
  · exact legible_command place write

theorem legible_memberLookup {place : Location} {name : String} {tree : Expr}
    (inside : ∀ x ∈ name.toList, isWordBreak x = false)
    (done : memberLookup place name = .ok tree) : tree.Everywhere Legible := by
  unfold memberLookup at done
  split at done
  · cases done
  · rename_i head parts shape
    dsimp only at done
    split at done
    · cases done
    · rename_i some
      obtain ⟨path, found, made⟩ := exists_of_bind_ok done
      cases made
      have first : (Expr.variable place head).Everywhere Legible := by
        refine legible_variable place (spells_variable (by simpa using some) fun x member => ?_)
        exact inside x (mem_of_mem_segments (by simp [shape]) member)
      refine legible_call (List.cons_ne_nil _ _) ?_
      exact List.forall_mem_cons.mpr ⟨legible_member place (.inl rfl),
        List.forall_mem_cons.mpr ⟨first, legible_keys found⟩⟩

theorem legible_memberItems {place commandPlace : Location} {name : String}
    {arguments function path : List Expr}
    (done : memberItems place commandPlace name arguments = .ok (function, path)) :
    function ≠ [] ∧ (∀ e ∈ function, e.Everywhere Legible) ∧ ∀ e ∈ path, e.Everywhere Legible := by
  unfold memberItems at done
  dsimp only at done
  split at done
  · cases done
  · obtain ⟨found, keyed, made⟩ := exists_of_bind_ok done
    cases made
    refine ⟨List.cons_ne_nil _ _, ?_, legible_keys keyed⟩
    refine List.forall_mem_singleton.mpr (legible_member place ?_)
    split
    · exact .inl rfl
    · exact .inr rfl

theorem legible_withMembers {e tree : Expr} (legible : e.Everywhere Legible)
    (done : e.withMembers = .ok tree) : tree.Everywhere Legible := by
  induction e using Expr.induction generalizing tree with
  | call place body ih =>
      obtain ⟨node, below⟩ := everywhere_call.mp legible
      rcases memberCall_or_other body with ⟨commandPlace, name, arguments, rfl, member⟩ | other
      · rw [withMembers_call_of_member member] at done
        obtain ⟨⟨function, path⟩, items, rest⟩ := exists_of_bind_ok done
        obtain ⟨inner, action, made⟩ := exists_of_bind_ok rest
        cases made
        obtain ⟨some, functions, keyed⟩ := legible_memberItems items
        have read := legible_mapM (fun e member tree made =>
          ih e (by simp [member]) (below e (by simp [member])) made) action
        refine legible_call (by simp [some]) ?_
        simp only [List.forall_mem_append]
        exact ⟨⟨⟨functions, fun e member => read e (List.mem_of_mem_take member)⟩, keyed⟩,
          fun e member => read e (List.mem_of_mem_drop member)⟩
      · rw [withMembers_call other] at done
        obtain ⟨inner, action, made⟩ := exists_of_bind_ok done
        cases made
        exact legible_call (ne_nil_of_mapM_ok node.counted action)
          (legible_mapM (fun e member tree made => ih e member (below e member) made) action)
  | array place body ih =>
      obtain ⟨-, below⟩ := everywhere_array.mp legible
      rw [withMembers, withMembersAll_eq_mapM] at done
      obtain ⟨inner, action, made⟩ := exists_of_bind_ok done
      cases made
      exact legible_array
        (legible_mapM (fun e member tree made => ih e member (below e member) made) action)
  | map place body ih =>
      obtain ⟨node, below⟩ := everywhere_map.mp legible
      rw [withMembers, withMembersAll_eq_mapM] at done
      obtain ⟨inner, action, made⟩ := exists_of_bind_ok done
      cases made
      refine legible_map ?_
        (legible_mapM (fun e member tree made => ih e member (below e member) made) action)
      rw [length_of_mapM_ok action]
      exact node.counted
  | value place literal =>
      cases done
      exact legible
  | command place name =>
      have spelled := (everywhere_command.mp legible).spelled
      rw [withMembers] at done
      split at done
      · rename_i dotted
        have dot : '.' ∈ name.toList := by
          have dotted : isDotted name = true := (Bool.and_eq_true_iff.mp dotted).1
          simpa [isDotted] using dotted
        exact legible_memberLookup (noBreak_dotted spelled dot) done
      · cases done
        exact legible
  | reference place name =>
      have spelled := (everywhere_variable.mp legible).spelled
      rw [withMembers] at done
      split at done
      · exact legible_memberLookup (noBreak_variable spelled) done
      · cases done
        exact legible

/-! ## Flattening sequences -/

theorem legible_withSequences {e : Expr} (legible : e.Everywhere Legible) :
    e.withSequences.Everywhere Legible := by
  induction e using Expr.induction with
  | call place body ih =>
      obtain ⟨node, below⟩ := everywhere_call.mp legible
      have inner : ∀ item ∈ body.map withSequences, item.Everywhere Legible :=
        List.forall_mem_map.mpr fun e member => ih e member (below e member)
      cases found : (Expr.call place body).sequence? with
      | none =>
          rw [withSequences_call found]
          exact legible_call (fun empty => node.counted (List.map_eq_nil_iff.mp empty)) inner
      | some arguments =>
          obtain ⟨_, commandPlace, whole⟩ := eq_call_of_sequence? found
          cases whole
          obtain ⟨head, others⟩ := List.forall_mem_cons.mp inner
          rw [withSequences_sequence]
          refine legible_call (List.cons_ne_nil _ _) (List.forall_mem_cons.mpr ⟨head, ?_⟩)
          intro item member
          -- An item comes from the arguments, or is spliced in from one of them that is a sequence.
          rcases mem_splice member with ⟨inside, -⟩ | ⟨e, inside, spliced, sequence, deeper⟩
          · exact others item inside
          · obtain ⟨place, commandPlace, rfl⟩ := eq_call_of_sequence? sequence
            exact (everywhere_call.mp (others _ inside)).2 item (by simp [deeper])
  | array place body ih =>
      obtain ⟨-, below⟩ := everywhere_array.mp legible
      rw [withSequences, withSequencesAll_eq_map]
      exact legible_array (List.forall_mem_map.mpr fun e member => ih e member (below e member))
  | map place body ih =>
      obtain ⟨node, below⟩ := everywhere_map.mp legible
      rw [withSequences, withSequencesAll_eq_map]
      refine legible_map ?_ (List.forall_mem_map.mpr fun e member => ih e member (below e member))
      rw [List.length_map]
      exact node.counted
  | value place literal => exact legible
  | command place name => exact legible
  | reference place name => exact legible

/-! ## All passes -/

theorem legible_desugar {e tree : Expr} (legible : e.Everywhere Legible)
    (done : e.desugar = .ok tree) : tree.Everywhere Legible := by
  obtain ⟨piped, read, pipes, members, -, rfl⟩ := stages_of_desugar done
  exact legible_withSequences
    (legible_withMembers (legible_withPipes (legible_withCommands legible) pipes) members)

end Expr

end ShellLisp
