import ShellLisp.Proofs.Parsing.Pieces
import ShellLisp.Proofs.Reading.Operands

/-!
# Dotted names

Parts joined by dots, and the member access that a dotted name stands for: `(.a.b e)` and
`(.a.b e v)` for the call of `get` or `set` with the parts as its keys, and `$h.a.b` or the head
`h.a.b` for a `get` from the variable `$h`. The main statement is that the texts of both are read
alike.
-/

namespace ShellLisp
open Text
open ShellLisp.Expr (Interchangeable)

/-! ## Parts joined by dots -/

/-- A part of a dotted name: not empty, with no dot, no slash and no character that ends words. -/
structure IsSegment (part : String) : Prop where
  filled : part ≠ ""
  plain : ∀ c ∈ part.toList, isWordBreak c = false ∧ c ≠ '.' ∧ c ≠ '/' ∧ c ≠ '\\'

def dotted (parts : List String) : String := ".".intercalate parts

section
variable {parts keys : List String} {head : String}

theorem toList_dotted (parts : List String) :
    (dotted parts).toList = ['.'].intercalate (parts.map String.toList) :=
  String.toList_intercalate

theorem segments_dotted (filled : parts ≠ []) (segments : ∀ part ∈ parts, IsSegment part) :
    Expr.segments (dotted parts) = parts := by
  have absent : ∀ part ∈ parts.map String.toList, '.' ∉ part :=
    List.forall_mem_map.mpr fun part member inside =>
      ((segments part member).plain _ inside).2.1 rfl
  rw [Expr.segments, toList_dotted, split_intercalate (by simpa using filled) absent, List.map_map]
  simp [Function.comp_def]

theorem mem_dotted {c : Char} (inside : c ∈ (dotted parts).toList) :
    c = '.' ∨ ∃ part ∈ parts, c ∈ part.toList := by
  induction parts with
  | nil => cases inside
  | cons part rest ih =>
      cases rest with
      | nil => exact .inr ⟨part, by simp, by simpa [dotted] using inside⟩
      | cons next others =>
          rw [toList_dotted, List.map_cons, List.map_cons, List.intercalate_cons_cons,
            ← List.map_cons, ← toList_dotted, List.append_assoc] at inside
          rcases List.mem_append.mp inside with here | later
          · exact .inr ⟨part, by simp, here⟩
          · rcases List.mem_append.mp later with dot | later
            · exact .inl (List.mem_singleton.mp dot)
            · exact (ih later).imp_right fun ⟨found, member, among⟩ =>
                ⟨found, List.mem_cons_of_mem _ member, among⟩

theorem noBreak_dottedParts (segments : ∀ part ∈ parts, IsSegment part) :
    ∀ c ∈ (dotted parts).toList, isWordBreak c = false ∧ c ≠ '/' ∧ c ≠ '\\' := by
  intro c inside
  rcases mem_dotted inside with rfl | ⟨part, member, among⟩
  · exact ⟨by decide, by decide, by decide⟩
  · obtain ⟨plain, -, slash, backslash⟩ := (segments part member).plain c among
    exact ⟨plain, slash, backslash⟩

theorem isPath_dotted (segments : ∀ part ∈ parts, IsSegment part) :
    Expr.isPath (dotted parts) = false := by
  rw [Expr.isPath, List.any_eq_false]
  intro c inside
  obtain ⟨-, slash, backslash⟩ := noBreak_dottedParts segments c inside
  simp [slash, backslash]

theorem exists_dotted (filled : keys ≠ []) (head : String) :
    ∃ behind, (dotted (head :: keys)).toList = head.toList ++ '.' :: behind := by
  obtain ⟨next, others, rfl⟩ := List.exists_cons_of_ne_nil filled
  rw [toList_dotted, List.map_cons, List.map_cons, List.intercalate_cons_cons]
  exact ⟨_, by rw [List.append_assoc, List.singleton_append]⟩

end

namespace Expr

/-! ## Calls without operators -/

section
variable {body : List Expr} (items : ∀ e ∈ body, e.operator? = none) (place : Location)
include items

theorem chain_of_items : chain (body.map joined) = (body.map joined, []) :=
  chain_of_splitLast?_none (splitLast?_eq_none (List.forall_mem_map.mpr fun e member =>
    (operator?_joined e).trans (items e member)))

theorem joined_call_of_items :
    (Expr.call place body).joined = .call place (markHead (body.map joined)) := by
  have plain : (chain (markHead (body.map joined))).2 = [] := by
    rw [chain_markHead, chain_of_items items]
  rw [joined_call, linked, plain]

theorem groupable_call_of_items :
    (Expr.call place body).withCommands.Groupable ↔ ∀ e ∈ body, e.withCommands.Groupable := by
  rw [groupable_withCommands_call]
  exact and_iff_right (groupsFilled_of_no_link (by rw [chain_of_items items]))

end

/-! ## The access to members -/

def keyTexts (keys : List String) : List Expr := keys.map (ofText .nowhere)

variable {keys : List String} {head : String}

theorem keys_of_segments (plain : ∀ key ∈ keys, IsSegment key) (place : Location) :
    Expr.keys place keys = .ok (keys.map (ofText place)) := by
  have filled : keys.any (·.isEmpty) = false := by
    rw [List.any_eq_false]
    intro key member
    simpa using (plain key member).filled
  rw [Expr.keys, filled]
  rfl

theorem normal_key : ∀ key ∈ keyTexts keys, key.Everywhere NodeNormal :=
  List.forall_mem_map.mpr fun _ _ =>
    everywhere_value.mpr ⟨trivial, trivial, trivial, trivial, sequenceFlat_of_none rfl⟩

theorem operator?_key : ∀ key ∈ keyTexts keys, key.operator? = none :=
  List.forall_mem_map.mpr fun _ _ => rfl

theorem joined_of_normal {e : Expr} (normal : e.Everywhere NodeNormal) :
    e.withCommands.Groupable ∧ e.joined = e ∧ e.resolution = some e.placeless := by
  have outcome := pipesOutcome_withPipes e
  rw [withPipes_of_normal normal] at outcome
  have follows := follows_withMembers e
  rw [Follows, withMembers_of_normal normal] at follows
  rw [joined, withCommands_of_normal normal]
  exact ⟨outcome.1, outcome.2.symm, follows⟩

theorem map_joined_keys : (keyTexts keys).map joined = keyTexts keys :=
  map_eq_self fun key member => (joined_of_normal (normal_key key member)).2.1

theorem rowResolution_cons (e : Expr) (rest : List Expr) :
    rowResolution (e :: rest) =
      e.resolution.bind fun first => (rowResolution rest).map (first :: ·) := by
  rw [rowResolution, rowResolution, List.map_cons, List.mapM_cons]
  cases e.resolution <;> cases List.mapM id (rest.map resolution) <;> rfl

theorem rowResolution_keys (rest : List Expr) :
    rowResolution (keyTexts keys ++ rest) = (rowResolution rest).map (keyTexts keys ++ ·) := by
  induction keys with
  | nil =>
      show rowResolution rest = _
      cases rowResolution rest <;> rfl
  | cons key others ih =>
      have here : (ofText .nowhere key).resolution = some (ofText .nowhere key) := rfl
      rw [keyTexts, List.map_cons, List.cons_append, rowResolution_cons, here, Option.bind_some,
        ← keyTexts, ih, Option.map_map]
      rfl

def accessName (more : Nat) : String := if more = 0 then readMember else writeMember

theorem accessName_plain (more : Nat) :
    isMemberCommand (accessName more) = false ∧ isDotted (accessName more) = false ∧
      accessName more ∉ operators := by
  rw [accessName]
  split <;> decide

theorem isMemberCommand_dotted (plain : ∀ key ∈ keys, IsSegment key) :
    isMemberCommand ("." ++ dotted keys) = true := by
  have noPath := isPath_dotted plain
  rw [isPath] at noPath
  simp [isMemberCommand, isPath, String.toList_append, noPath]

theorem memberItems_dotted (filled : keys ≠ []) (plain : ∀ key ∈ keys, IsSegment key) (e : Expr)
    {rest : List Expr} (few : rest.length ≤ 1) (place commandPlace : Location) :
    memberItems place commandPlace ("." ++ dotted keys) (e :: rest) =
      .ok ([.command place (accessName rest.length)], keys.map (ofText commandPlace)) := by
  have path : Expr.keys commandPlace (segments (String.ofList ("." ++ dotted keys).toList.tail)) =
      .ok (keys.map (ofText commandPlace)) := by
    rw [String.toList_append]
    show Expr.keys commandPlace (segments (String.ofList (dotted keys).toList)) = _
    rw [String.ofList_toList, segments_dotted filled plain, keys_of_segments plain]
  rw [memberItems, path]
  rcases rest with _ | ⟨value, _ | ⟨next, others⟩⟩
  · rfl
  · rfl
  · simp at few

def accessTree (keys : List String) (target : Expr) (rest : List Expr) : Expr :=
  .call .nowhere (.command .nowhere (accessName rest.length) :: target :: (keyTexts keys ++ rest))

def accessOf (keys : List String) (e : Expr) (rest : List Expr) : Option Expr :=
  e.resolution.bind fun target => (rowResolution rest).map (accessTree keys target)

theorem length_rowResolution {row found : List Expr} (done : rowResolution row = some found) :
    found.length = row.length := by
  induction row generalizing found with
  | nil =>
      cases done
      rfl
  | cons e rest ih =>
      rw [rowResolution_cons] at done
      obtain ⟨first, -, later⟩ := Option.bind_eq_some_iff.mp done
      obtain ⟨others, tail, rfl⟩ := Option.map_eq_some_iff.mp later
      rw [List.length_cons, List.length_cons, ih tail]

theorem exists_rowResolution {row : List Expr} (each : ∀ e ∈ row, e.Resolves) :
    ∃ found, rowResolution (row.map joined) = some found := by
  induction row with
  | nil => exact ⟨[], rfl⟩
  | cons e rest ih =>
      obtain ⟨here, later⟩ := List.forall_mem_cons.mp each
      obtain ⟨tree, first⟩ := here.resolved
      obtain ⟨found, others⟩ := ih later
      exact ⟨tree :: found, by rw [List.map_cons, rowResolution_cons, first, others]; rfl⟩

theorem resolution_access (e : Expr) (rest : List Expr) (place commandPlace : Location) :
    (Expr.call place
      (.command commandPlace (accessName rest.length) :: e :: (keyTexts keys ++ rest))).resolution =
        accessOf keys e rest := by
  obtain ⟨noMember, noDot, -⟩ := accessName_plain rest.length
  have function : (Expr.command commandPlace (accessName rest.length)).resolution =
      some (.command .nowhere (accessName rest.length)) := by
    rw [resolution, placeless, withMembers, noDot]
    rfl
  rw [resolution_call (by rintro _ _ ⟨⟩; exact noMember), rowResolution_cons, rowResolution_cons,
    rowResolution_keys, function, accessOf]
  cases e.resolution with
  | none => rfl
  | some target =>
      cases row : rowResolution rest with
      | none => rfl
      | some found =>
          simp [accessTree, length_rowResolution row]

theorem resolution_memberCall (filled : keys ≠ []) (plain : ∀ key ∈ keys, IsSegment key) (e : Expr)
    {rest : List Expr} (few : rest.length ≤ 1) (place commandPlace : Location) :
    (Expr.call place (.command commandPlace ("." ++ dotted keys) :: e :: rest)).resolution =
      accessOf keys e rest := by
  have few : (rest.map placeless).length ≤ 1 := by simpa using few
  rw [resolution, placeless, placelessAll_eq_map, List.map_cons, List.map_cons, placeless,
    withMembers_call_of_member (isMemberCommand_dotted plain),
    memberItems_dotted filled plain e.placeless few, List.mapM_cons, List.length_map, accessOf,
    resolution]
  cases e.placeless.withMembers with
  | error failure => rfl
  | ok target =>
      cases row : (rest.map placeless).mapM withMembers with
      | error failure => rw [rowResolution_eq, row]; rfl
      | ok found =>
          have done : rowResolution rest = some found := by rw [rowResolution_eq, row]; rfl
          rw [done, ← length_rowResolution done]
          rfl

theorem operator?_word {name : String} (plain : name ∉ operators) (place : Location) :
    (Expr.value place (.word name)).operator? = none := by
  simp [operator?, bareWord?, Option.filter_eq_none_iff, plain]

theorem dotted_not_operator {name : String} (dot : '.' ∈ name.toList) : name ∉ operators :=
  fun is => plain_operator is dot

theorem member_not_operator (keys : List String) : "." ++ dotted keys ∉ operators :=
  dotted_not_operator (by simp [String.toList_append])

theorem joined_word_call {name : String} (noOperator : name ∉ operators) {body : List Expr}
    (items : ∀ e ∈ body, e.operator? = none) (place wordPlace : Location) :
    (Expr.call place (.value wordPlace (.word name) :: body)).joined =
      .call place (.command wordPlace name :: body.map joined) := by
  rw [joined_call_of_items (List.forall_mem_cons.mpr ⟨operator?_word noOperator _, items⟩),
    List.map_cons, markHead_cons]
  rfl

theorem groupable_word_call {name : String} (noOperator : name ∉ operators) {body : List Expr}
    (items : ∀ e ∈ body, e.operator? = none) (place wordPlace : Location) :
    (Expr.call place (.value wordPlace (.word name) :: body)).withCommands.Groupable ↔
      ∀ e ∈ body, e.withCommands.Groupable := by
  have word : (Expr.value wordPlace (.word name)).withCommands.Groupable :=
    groupable_of_bareWord rfl
  rw [groupable_call_of_items (List.forall_mem_cons.mpr ⟨operator?_word noOperator _, items⟩),
    List.forall_mem_cons, and_iff_right word]

section
variable (filled : keys ≠ []) (plain : ∀ key ∈ keys, IsSegment key) {e : Expr} {rest : List Expr}
  (few : rest.length ≤ 1) (items : ∀ x ∈ e :: rest, x.operator? = none)
  (place other commandPlace otherPlace : Location)
include filled plain few items

theorem interchangeable_memberCall :
    Interchangeable (.call place (.value commandPlace (.word ("." ++ dotted keys)) :: e :: rest))
      (.call other
        (.value otherPlace (.word (accessName rest.length)) :: e :: (keyTexts keys ++ rest))) := by
  have member := member_not_operator keys
  have access := (accessName_plain rest.length).2.2
  have count : (rest.map joined).length = rest.length := List.length_map ..
  have all : ∀ x ∈ e :: (keyTexts keys ++ rest), x.operator? = none := by
    simp only [List.forall_mem_cons, List.forall_mem_append] at items ⊢
    exact ⟨items.1, operator?_key, items.2⟩
  have keysGroupable : ∀ key ∈ keyTexts keys, key.withCommands.Groupable := fun key inside =>
    (joined_of_normal (normal_key key inside)).1
  refine ⟨rfl, ?_, fun _ => ?_⟩
  · rw [groupable_word_call member items, groupable_word_call access all, List.forall_mem_cons,
      List.forall_mem_cons, List.forall_mem_append]
    exact and_congr_right fun _ => (and_iff_right keysGroupable).symm
  · rw [joined_word_call member items, joined_word_call access all, List.map_cons, List.map_cons,
      List.map_append, map_joined_keys, resolution_memberCall filled plain _ (by simpa using few),
      ← count, resolution_access]

theorem resolves_memberCall (each : ∀ x ∈ e :: rest, x.Resolves) :
    Resolves (.call place (.value commandPlace (.word ("." ++ dotted keys)) :: e :: rest)) := by
  have member := member_not_operator keys
  refine ⟨(groupable_word_call member items _ _).mpr fun x inside => (each x inside).groupable, ?_⟩
  obtain ⟨argument, others⟩ := List.forall_mem_cons.mp each
  obtain ⟨target, first⟩ := argument.resolved
  obtain ⟨found, row⟩ := exists_rowResolution others
  rw [joined_word_call member items, List.map_cons,
    resolution_memberCall filled plain _ (by simpa using few), accessOf, first, row]
  exact ⟨_, rfl⟩

end

/-! ## Look-ups -/

def lookup (head : String) (keys : List String) : Expr :=
  .call .nowhere
    (.value .nowhere (.word readMember) :: .variable .nowhere head :: keyTexts keys)

def lookupTree (head : String) (keys : List String) : Expr :=
  accessTree keys (.variable .nowhere head) []

theorem map_shown_keys : (keyTexts keys).map shown = keyTexts keys :=
  map_eq_self (List.forall_mem_map.mpr fun _ _ => rfl)

theorem shown_lookup (head : String) (keys : List String) :
    (lookup head keys).shown = lookup head keys := by
  rw [lookup, shown, shownAll_eq_map, List.map_cons, List.map_cons, map_shown_keys]
  rfl

theorem isDotted_segment (plain : IsSegment head) : isDotted head = false := by
  rw [isDotted, Bool.eq_false_iff]
  intro dot
  exact (plain.plain '.' (by simpa using dot)).2.1 rfl

theorem isDotted_dotted (filled : keys ≠ []) : isDotted (dotted (head :: keys)) = true := by
  obtain ⟨behind, shape⟩ := exists_dotted filled head
  simp [isDotted, shape]

theorem memberLookup_dotted (headPlain : IsSegment head) (plain : ∀ key ∈ keys, IsSegment key) :
    memberLookup .nowhere (dotted (head :: keys)) = .ok (lookupTree head keys) := by
  have all : ∀ part ∈ head :: keys, IsSegment part := List.forall_mem_cons.mpr ⟨headPlain, plain⟩
  have some : head.isEmpty = false := by simpa using headPlain.filled
  rw [memberLookup, segments_dotted (List.cons_ne_nil _ _) all]
  simp only [some, keys_of_segments plain]
  rw [lookupTree, accessTree, List.append_nil]
  rfl

/-- The passes make of the written look-up what they make of the dotted name. -/
theorem lookup_resolves (headPlain : IsSegment head) (keys : List String) :
    (lookup head keys).withCommands.Groupable ∧
      (lookup head keys).joined.resolution = some (lookupTree head keys) := by
  have normal : (Expr.variable .nowhere head).Everywhere NodeNormal :=
    everywhere_variable.mpr
      ⟨trivial, trivial, trivial, isDotted_segment headPlain, sequenceFlat_of_none rfl⟩
  obtain ⟨groupable, kept, resolved⟩ := joined_of_normal normal
  have items : ∀ e ∈ Expr.variable .nowhere head :: keyTexts keys, e.operator? = none :=
    List.forall_mem_cons.mpr ⟨rfl, operator?_key⟩
  have function : readMember ∉ operators := (accessName_plain 0).2.2
  constructor
  · exact (groupable_word_call function items _ _).mpr (List.forall_mem_cons.mpr
      ⟨groupable, fun key inside => (joined_of_normal (normal_key key inside)).1⟩)
  · have access : _ = accessOf keys (.variable .nowhere head) [] :=
      resolution_access (.variable .nowhere head) [] .nowhere .nowhere
    rw [List.append_nil, accessOf, resolved] at access
    rw [lookup, joined_word_call function items, List.map_cons, kept, map_joined_keys]
    exact access

section
variable (filled : keys ≠ []) (headPlain : IsSegment head) (plain : ∀ key ∈ keys, IsSegment key)
  (place : Location)
include filled headPlain plain

theorem interchangeable_variable :
    Interchangeable (.variable place (dotted (head :: keys))) (lookup head keys) := by
  obtain ⟨groupable, resolved⟩ := lookup_resolves headPlain keys
  have leaf : (Expr.variable place (dotted (head :: keys))).withCommands.Groupable := by
    intro _ _ inside
    simp [withCommands, nodes] at inside
  refine ⟨rfl, iff_of_true leaf groupable, fun _ => ?_⟩
  rw [resolved]
  show (Expr.variable place (dotted (head :: keys))).resolution = _
  rw [resolution, placeless, withMembers, isDotted_dotted filled, if_pos rfl,
    memberLookup_dotted headPlain plain]
  rfl

end

theorem not_member_dotted (filled : keys ≠ []) (headPlain : IsSegment head) :
    isMemberCommand (dotted (head :: keys)) = false := by
  obtain ⟨behind, shape⟩ := exists_dotted filled head
  obtain ⟨c, more, first⟩ :=
    List.exists_cons_of_ne_nil (String.toList_eq_nil_iff.not.mpr headPlain.filled)
  have other : c ≠ '.' := (headPlain.plain c (by simp [first])).2.1
  simp [isMemberCommand, shape, first, other]

section
variable (filled : keys ≠ []) (headPlain : IsSegment head) (plain : ∀ key ∈ keys, IsSegment key)
  (noDigits : ∀ key ∈ keys, ∀ c ∈ key.toList.head?, isDigit c = false) (place : Location)
include filled headPlain plain noDigits

theorem resolution_command :
    (Expr.command place (dotted (head :: keys))).resolution = some (lookupTree head keys) := by
  have all : ∀ part ∈ head :: keys, IsSegment part := List.forall_mem_cons.mpr ⟨headPlain, plain⟩
  have noProgram : isProgram (dotted (head :: keys)) = false := by
    rw [isProgram, isPath_dotted all, segments_dotted (List.cons_ne_nil _ _) all, Bool.false_or,
      List.tail_cons, List.any_eq_false]
    intro key member
    cases first : key.toList.head? with
    | none => simp
    | some c => simp [noDigits key member c first]
  rw [resolution, placeless, withMembers, isDotted_dotted filled, noProgram]
  simp only [Bool.not_false, Bool.and_self, if_true, memberLookup_dotted headPlain plain]
  rfl

theorem resolution_dottedCall (first : List Expr) (callPlace : Location) :
    (Expr.call callPlace (.command place (dotted (head :: keys)) :: first)).resolution =
      (rowResolution first).map fun items => .call .nowhere (lookupTree head keys :: items) := by
  rw [resolution_call (by rintro _ _ ⟨⟩; exact not_member_dotted filled headPlain),
    rowResolution_cons, resolution_command filled headPlain plain noDigits]
  cases rowResolution first <;> rfl

/-- A dotted word, and the look-up that it stands for as the head of a call. -/
theorem headChange_lookup {found : Expr} {alone : Bool}
    (written : found.placeless =
      if alone then .call .nowhere [lookup head keys] else lookup head keys) :
    HeadChange (.value place (.word (dotted (head :: keys)))) found alone := by
  have noOperator : dotted (head :: keys) ∉ operators := by
    obtain ⟨behind, shape⟩ := exists_dotted filled head
    exact dotted_not_operator (by simp [shape])
  have long : found.isBareWord = false := by
    rw [← isBareWord_placeless, written]
    cases alone <;> rfl
  have joinedLong : found.joined.isBareWord = false := (isBareWord_joined found).trans long
  obtain ⟨groupable, resolved⟩ := lookup_resolves headPlain keys
  have same : Interchangeable found.placeless found :=
    interchangeable_of_placeless (placeless_placeless found)
  rw [written] at same
  have single : ∀ e ∈ [lookup head keys], e.operator? = none := List.forall_mem_singleton.mpr rfl
  -- Written by itself the look-up is the head; in brackets it is the call that a lone word is made.
  refine ⟨rfl, operator?_word noOperator place, long, ?_, ?_, ?_⟩
  · cases alone with
    | false => exact same.groupable.mp groupable
    | true =>
        exact same.groupable.mp
          ((groupable_call_of_items single _).mpr (List.forall_mem_singleton.mpr groupable))
  · rintro rfl callPlace other first second rows
    have resolvedToo : found.joined.resolution = some (lookupTree head keys) :=
      (same.same groupable).symm.trans resolved
    have rows : rowResolution first = rowResolution second := congrArg (List.mapM id) rows
    rw [asHead_of_not_bareWord joinedLong,
      resolution_call (not_member_of_not_bareWord joinedLong second), rowResolution_cons,
      resolvedToo, ← rows]
    show (Expr.call callPlace (.command place (dotted (head :: keys)) :: first)).resolution = _
    rw [resolution_dottedCall filled headPlain plain noDigits]
    cases rowResolution first <;> rfl
  · rintro rfl p
    have called := same.same
      ((groupable_call_of_items single _).mpr (List.forall_mem_singleton.mpr groupable))
    have lookupLong : (lookup head keys).joined.isBareWord = false := isBareWord_joined _
    have noWord : found.joined.bareWord? = none := by
      rwa [Expr.isBareWord, Option.isSome_eq_false_iff, Option.isNone_iff_eq_none] at joinedLong
    refine ⟨noWord.symm, ?_⟩
    show (Expr.call p [.command place (dotted (head :: keys))]).resolution = _
    rw [resolution_dottedCall filled headPlain plain noDigits, ← called, if_pos rfl,
      joined_call_of_items single, List.map_singleton, markHead_cons,
      asHead_of_not_bareWord lookupLong,
      resolution_call (not_member_of_not_bareWord lookupLong []), rowResolution_cons, resolved]
    rfl

end

end Expr

end ShellLisp
