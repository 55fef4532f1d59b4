import Mathlib.Data.List.Perm.Basic
import ShellLisp.Proofs.Reading.Tree

/-!
# How pipes group

The pass over operators splits a call at its last operator and comes back to what stood before it.
Here the same tree is built at once: all operators cut the items of a call into groups, and the
groups are joined from the left. The main statement says that the pass gives that tree when every
operator has items on both sides, with no item lost or doubled, and that otherwise it fails at an
operator. Among the other passes it is the same, up to the depth that they allow.
-/

namespace ShellLisp.Expr

/-! ## Groups -/

/-- An operator between two groups of a call's items, with the group behind it. -/
structure Link where
  place : Location
  operator : String
  items : List Expr

/-- The group before the first operator, and every operator with the group behind it. -/
def chain : List Expr → List Expr × List Link
  | [] => ([], [])
  | e :: rest =>
      match e.operator? with
      | some operator => ([], ⟨e.place, operator, (chain rest).1⟩ :: (chain rest).2)
      | none => (e :: (chain rest).1, (chain rest).2)

/-- The items of the call in which an operator joins what stands before it to its group. -/
def Link.join (link : Link) (before : Expr) : List Expr :=
  if link.operator = ";" then
    [.command link.place sequenceName, before, group link.items link.place]
  else
    match link.items with
    | [] => [before]
    | target :: rest =>
        if link.operator = "|" then markHead (target :: before :: rest)
        else markHead (target :: (rest ++ [before]))

def joinLinks (first : Expr) (links : List Link) : Expr :=
  links.foldl (fun before link => .call before.place (link.join before)) first

def movedTo (place : Location) : Expr → Expr
  | .call _ body => .call place body
  | other => other

def linked (place : Location) (body : List Expr) : Expr :=
  match (chain body).2 with
  | [] => .call place body
  | links => (joinLinks (group (chain body).1 place) links).movedTo place

mutual

/-- The tree with the groups of every call joined. -/
def grouped : Expr → Expr
  | .call place body => linked place (groupedAll body)
  | .array place body => .array place (groupedAll body)
  | .map place body => .map place (groupedAll body)
  | leaf => leaf

def groupedAll : List Expr → List Expr
  | [] => []
  | e :: rest => e.grouped :: groupedAll rest

end

/-- Every operator among a call's items has items on both sides. -/
def GroupsFilled (body : List Expr) : Prop :=
  (chain body).2 ≠ [] → (chain body).1 ≠ [] ∧ ∀ link ∈ (chain body).2, link.items ≠ []

def Groupable (e : Expr) : Prop :=
  ∀ place body, .call place body ∈ e.nodes → GroupsFilled body

/-! ## Items -/

mutual

/-- The leaves of a tree, a command as the word it was written as, and its arrays and maps without
their items. -/
def parts : Expr → List Expr
  | .call _ body => partsAll body
  | .array place body => .array place [] :: partsAll body
  | .map place body => .map place [] :: partsAll body
  | .command place name => [.value place (.word name)]
  | leaf => [leaf]

def partsAll : List Expr → List Expr
  | [] => []
  | e :: rest => e.parts ++ partsAll rest

end

/-- What an operator leaves behind: the word of a sequence, or nothing. -/
def operatorParts (place : Location) (operator : String) : List Expr :=
  if operator = ";" then [.value place (.word sequenceName)] else []

mutual

/-- The parts of a tree with the operators of its calls replaced by what they leave behind. -/
def keptParts : Expr → List Expr
  | .call _ body => keptItems body
  | .array place body => .array place [] :: keptPartsAll body
  | .map place body => .map place [] :: keptPartsAll body
  | .command place name => [.value place (.word name)]
  | leaf => [leaf]

def keptItems : List Expr → List Expr
  | [] => []
  | e :: rest =>
      (match e.operator? with
        | some operator => operatorParts e.place operator
        | none => e.keptParts) ++ keptItems rest

def keptPartsAll : List Expr → List Expr
  | [] => []
  | e :: rest => e.keptParts ++ keptPartsAll rest

end

/-! ## Chains -/

theorem chain_of_operator {e : Expr} {operator : String} (found : e.operator? = some operator)
    (rest : List Expr) :
    chain (e :: rest) = ([], ⟨e.place, operator, (chain rest).1⟩ :: (chain rest).2) := by
  simp [chain, found]

theorem chain_of_item {e : Expr} (item : e.operator? = none) (rest : List Expr) :
    chain (e :: rest) = (e :: (chain rest).1, (chain rest).2) := by
  simp [chain, item]

theorem chain_fst_of_no_link {body : List Expr} (plain : (chain body).2 = []) :
    (chain body).1 = body := by
  induction body with
  | nil => rfl
  | cons e rest ih =>
      cases action : e.operator? with
      | some operator => simp [chain_of_operator action] at plain
      | none =>
          rw [chain_of_item action] at plain ⊢
          rw [ih plain]

theorem chain_markHead (body : List Expr) :
    chain (markHead body) = (markHead (chain body).1, (chain body).2) := by
  cases body with
  | nil => rfl
  | cons e rest =>
      rw [markHead_cons]
      cases action : e.operator? with
      | some operator =>
          rw [chain_of_operator action, chain_of_operator (e.operator?_asHead.trans action),
            place_asHead]
          rfl
      | none =>
          rw [chain_of_item action, chain_of_item (e.operator?_asHead.trans action), markHead_cons]

/-! ## Single expressions for groups -/

theorem group_single {e : Expr} (long : e.isBareWord = false) (place : Location) :
    group [e] place = e := by
  simp [group, long]

theorem group_word {e : Expr} (word : e.isBareWord = true) (place : Location) :
    group [e] place = .call e.place [e.asHead] := by
  simp [group, word, markHead_cons]

theorem group_many (first second : Expr) (rest : List Expr) (place : Location) :
    group (first :: second :: rest) place = .call first.place (first.asHead :: second :: rest) := by
  simp [group, markHead_cons]

theorem group_place {items : List Expr} (some : items ≠ []) (place other : Location) :
    group items place = group items other := by
  match items with
  | [e] => rfl
  | first :: second :: rest => rfl

theorem place_group (e : Expr) (rest : List Expr) (place : Location) :
    (group (e :: rest) place).place = e.place := by
  cases rest with
  | cons second rest => rfl
  | nil =>
      cases word : e.isBareWord with
      | true => rw [group_word word]; rfl
      | false => rw [group_single word]

theorem group_markHead (items : List Expr) (place : Location) :
    group (markHead items) place = group items place := by
  match items with
  | [] => rfl
  | [e] =>
      rw [markHead_cons]
      cases word : e.isBareWord with
      | false => rw [asHead_of_not_bareWord word]
      | true =>
          rw [group_word word, group_word (e.isBareWord_asHead.trans word), place_asHead,
            asHead_asHead]
  | first :: second :: rest =>
      rw [markHead_cons, group_many, group_many, place_asHead, asHead_asHead]

/-! ## Splits and chains -/

theorem chain_of_splitLast?_none {body : List Expr} (none : splitLast? body = none) :
    chain body = (body, []) := by
  induction body with
  | nil => rfl
  | cons e rest ih =>
      unfold splitLast? at none
      split at none
      · cases none
      · rename_i tail
        rw [chain_of_item (Option.map_eq_none_iff.mp none), ih tail]

theorem chain_of_splitLast? {body : List Expr} {split : Split}
    (found : splitLast? body = some split) :
    chain body = ((chain split.left).1,
      (chain split.left).2 ++ [⟨split.place, split.operator, split.right⟩]) ∧
    chain split.right = (split.right, []) := by
  induction body generalizing split with
  | nil => cases found
  | cons e rest ih =>
      unfold splitLast? at found
      split at found
      · rename_i later tail
        cases found
        obtain ⟨whole, right⟩ := ih tail
        refine ⟨?_, right⟩
        cases action : e.operator? with
        | some operator => simp [chain_of_operator action, whole]
        | none => simp [chain_of_item action, whole]
      · rename_i tail
        obtain ⟨operator, action, rfl⟩ := Option.map_eq_some_iff.mp found
        have plain := chain_of_splitLast?_none tail
        exact ⟨by rw [chain_of_operator action, plain]; rfl, plain⟩

theorem append_of_splitLast? {body : List Expr} {split : Split}
    (found : splitLast? body = some split) :
    ∃ e : Expr, body = split.left ++ e :: split.right ∧
      e.operator? = some split.operator ∧ e.place = split.place := by
  induction body generalizing split with
  | nil => cases found
  | cons first rest ih =>
      unfold splitLast? at found
      split at found
      · rename_i later tail
        cases found
        obtain ⟨e, whole, operator, place⟩ := ih tail
        exact ⟨e, by rw [whole]; rfl, operator, place⟩
      · obtain ⟨operator, action, rfl⟩ := Option.map_eq_some_iff.mp found
        exact ⟨first, rfl, action, rfl⟩

/-! ## Grouped trees -/

theorem groupedAll_eq_map (body : List Expr) : groupedAll body = body.map grouped := by
  induction body with
  | nil => rfl
  | cons e rest ih => rw [groupedAll, ih, List.map_cons]

theorem grouped_call (place : Location) (body : List Expr) :
    (Expr.call place body).grouped = linked place (body.map grouped) := by
  rw [grouped, groupedAll_eq_map]

theorem movedTo_place (e : Expr) : e.movedTo e.place = e := by
  cases e <;> rfl

theorem place_joinLinks (first : Expr) (links : List Link) :
    (joinLinks first links).place = first.place := by
  induction links generalizing first with
  | nil => rfl
  | cons link rest ih => exact ih _

theorem movedTo_joinLinks {first : Expr} {place : Location} (same : first.place = place)
    (links : List Link) : (joinLinks first links).movedTo place = joinLinks first links := by
  rw [← same, ← place_joinLinks first links, movedTo_place]

theorem joinLinks_append (first : Expr) (links : List Link) (last : Link) :
    joinLinks first (links ++ [last]) =
      .call first.place (last.join (joinLinks first links)) := by
  simp only [joinLinks, List.foldl_append, List.foldl_cons, List.foldl_nil]
  rw [← joinLinks, place_joinLinks]

theorem isCall_linked (place : Location) (body : List Expr) :
    ∃ items, linked place body = .call place items := by
  unfold linked
  split
  · exact ⟨body, rfl⟩
  · rename_i links some
    obtain ⟨before, last, whole⟩ := (List.eq_nil_or_concat _).resolve_left some
    exact ⟨_, by rw [whole, List.concat_eq_append, joinLinks_append]; rfl⟩

theorem bareWord?_grouped (e : Expr) : e.grouped.bareWord? = e.bareWord? := by
  cases e with
  | call place body =>
      obtain ⟨items, whole⟩ := isCall_linked place (groupedAll body)
      rw [grouped, whole]
      rfl
  | _ => rfl

theorem operator?_grouped (e : Expr) : e.grouped.operator? = e.operator? := by
  rw [operator?, operator?, bareWord?_grouped]

theorem isBareWord_grouped (e : Expr) : e.grouped.isBareWord = e.isBareWord := by
  rw [isBareWord, isBareWord, bareWord?_grouped]

theorem place_grouped (e : Expr) : e.grouped.place = e.place := by
  cases e with
  | call place body =>
      obtain ⟨items, whole⟩ := isCall_linked place (groupedAll body)
      rw [grouped, whole]
      rfl
  | _ => rfl

theorem asHead_grouped (e : Expr) : e.asHead.grouped = e.grouped.asHead := by
  cases e with
  | call place body =>
      obtain ⟨items, whole⟩ := isCall_linked place (groupedAll body)
      simp only [asHead, grouped, whole]
  | value place literal => cases literal <;> rfl
  | _ => rfl

theorem markHead_map_grouped (body : List Expr) :
    (markHead body).map grouped = markHead (body.map grouped) := by
  cases body with
  | nil => rfl
  | cons e rest => rw [markHead_cons, List.map_cons, List.map_cons, markHead_cons, asHead_grouped]

def Link.map (change : Expr → Expr) (link : Link) : Link :=
  { link with items := link.items.map change }

theorem chain_map_grouped (body : List Expr) :
    chain (body.map grouped) =
      ((chain body).1.map grouped, (chain body).2.map (Link.map grouped)) := by
  induction body with
  | nil => rfl
  | cons e rest ih =>
      rw [List.map_cons]
      cases action : e.operator? with
      | some operator =>
          rw [chain_of_operator action, chain_of_operator (e.operator?_grouped.trans action), ih,
            place_grouped]
          rfl
      | none =>
          rw [chain_of_item action, chain_of_item (e.operator?_grouped.trans action), ih]
          rfl

theorem groupsFilled_markHead (body : List Expr) :
    GroupsFilled (markHead body) ↔ GroupsFilled body := by
  have empty : markHead (chain body).1 ≠ [] ↔ (chain body).1 ≠ [] := by
    cases (chain body).1 with
    | nil => rfl
    | cons e rest => simp [markHead_cons]
  simp only [GroupsFilled, chain_markHead, empty]

theorem groupsFilled_of_no_link {body : List Expr} (plain : (chain body).2 = []) :
    GroupsFilled body := fun some => absurd plain some

theorem grouped_group {items : List Expr} (some : items ≠ []) (filled : GroupsFilled items)
    (place : Location) :
    (group items place).grouped =
      joinLinks (group ((chain items).1.map grouped) place)
        ((chain items).2.map (Link.map grouped)) := by
  have item : ∀ first rest, items = first :: rest → first.operator? = none := by
    rintro first rest rfl
    cases action : first.operator? with
    | none => rfl
    | some operator =>
        rw [GroupsFilled, chain_of_operator action] at filled
        exact absurd rfl (filled (by simp)).1
  -- A lone item that is no word is no call of its own, and has no links to join.
  match items with
  | [e] =>
      have plain := item e [] rfl
      rw [chain_of_item plain]
      simp only [chain, List.map_cons, List.map_nil, joinLinks, List.foldl_nil]
      cases word : e.isBareWord with
      | false => rw [group_single word, group_single (e.isBareWord_grouped.trans word)]
      | true =>
          rw [group_word word, group_word (e.isBareWord_grouped.trans word), grouped_call, linked,
            List.map_cons, List.map_nil, asHead_grouped, place_grouped, chain_of_item]
          · rfl
          · rw [operator?_asHead, operator?_grouped, plain]
  | first :: second :: rest =>
      have plain := item first (second :: rest) rfl
      rw [group_many, grouped_call, ← markHead_cons, markHead_map_grouped, linked, chain_markHead,
        chain_map_grouped, chain_of_item plain, group_place (by simp) place first.place]
      cases action : (chain (second :: rest)).2 with
      | nil =>
          rw [chain_fst_of_no_link action]
          simp only [List.map_nil, List.map_cons, joinLinks, List.foldl_nil]
          rw [group_many, place_grouped, markHead_cons]
      | cons link links =>
          simp only [List.map_cons]
          rw [group_markHead, movedTo_joinLinks]
          rw [place_group, place_grouped]

theorem grouped_group_of_no_link {items : List Expr} (some : items ≠ [])
    (plain : chain items = (items, [])) (place : Location) :
    (group items place).grouped = group (items.map grouped) place := by
  rw [grouped_group some (groupsFilled_of_no_link (by rw [plain])), plain]
  rfl

/-- Joining at the last operator is joining all groups from the left. -/
theorem grouped_call_of_split {body : List Expr} {split : Split}
    (found : splitLast? body = some split) (left : split.left ≠ []) (right : split.right ≠ [])
    (filled : GroupsFilled split.left) (place : Location) :
    (Expr.call place body).grouped = .call place (split.items.map grouped) := by
  obtain ⟨whole, plain⟩ := chain_of_splitLast? found
  have first : (chain split.left).1.map grouped ≠ [] := by
    cases action : (chain split.left).2 with
    | nil => simp [chain_fst_of_no_link action, left]
    | cons link links => simp [(filled (by simp [action])).1]
  have before : joinLinks (group ((chain split.left).1.map grouped) place)
      ((chain split.left).2.map (Link.map grouped)) = (group split.left split.place).grouped := by
    rw [grouped_group left filled, group_place first]
  -- The last link is joined to what all the others were joined to.
  have joined : linked place (body.map grouped) =
      .call place (Link.join ⟨split.place, split.operator, split.right.map grouped⟩
        (group split.left split.place).grouped) := by
    rw [linked, chain_map_grouped, whole]
    simp only [List.map_append, List.map_cons, List.map_nil]
    split
    · rename_i none
      simp at none
    · rw [joinLinks_append, before]
      rfl
  rw [grouped_call, joined]
  simp only [Link.join, Split.items]
  split
  · rw [← grouped_group_of_no_link right plain]
    rfl
  · cases shape : split.right with
    | nil => exact absurd shape right
    | cons target rest =>
        simp only [List.map_cons]
        split <;> rw [markHead_map_grouped] <;> simp

/-! ## Empty groups -/

theorem groupsFilled_of_split {body : List Expr} {split : Split}
    (found : splitLast? body = some split) :
    GroupsFilled body ↔
      split.left ≠ [] ∧ split.right ≠ [] ∧ GroupsFilled split.left := by
  obtain ⟨whole, -⟩ := chain_of_splitLast? found
  constructor
  · intro filled
    simp only [GroupsFilled, whole] at filled
    obtain ⟨first, links⟩ := filled (by simp)
    have right : split.right ≠ [] :=
      links ⟨split.place, split.operator, split.right⟩ (by simp)
    refine ⟨?_, right, fun _ => ⟨first, fun link member => links link (by simp [member])⟩⟩
    rintro empty
    exact first (by rw [empty]; rfl)
  · rintro ⟨left, right, filled⟩
    intro _
    rw [whole]
    constructor
    · cases action : (chain split.left).2 with
      | nil => simpa [chain_fst_of_no_link action] using left
      | cons link links => exact (filled (by simp [action])).1
    · intro link member
      rcases List.mem_append.mp member with before | last
      · exact (filled (List.ne_nil_of_mem before)).2 link before
      · rw [List.mem_singleton.mp last]
        exact right

theorem groupable_call {place : Location} {body : List Expr} :
    (Expr.call place body).Groupable ↔ GroupsFilled body ∧ ∀ e ∈ body, e.Groupable := by
  simp only [Groupable, mem_nodes_call]
  constructor
  · intro all
    exact ⟨all place body (Or.inl rfl), fun e member p b node => all p b (Or.inr ⟨e, member, node⟩)⟩
  · rintro ⟨filled, below⟩ p b (same | ⟨e, member, node⟩)
    · cases same
      exact filled
    · exact below e member p b node

theorem groupable_array {place : Location} {body : List Expr} :
    (Expr.array place body).Groupable ↔ ∀ e ∈ body, e.Groupable := by
  simp only [Groupable, mem_nodes_array]
  constructor
  · exact fun all e member p b node => all p b (Or.inr ⟨e, member, node⟩)
  · rintro below p b (same | ⟨e, member, node⟩)
    · cases same
    · exact below e member p b node

theorem groupable_map {place : Location} {body : List Expr} :
    (Expr.map place body).Groupable ↔ ∀ e ∈ body, e.Groupable := by
  simp only [Groupable, mem_nodes_map]
  constructor
  · exact fun all e member p b node => all p b (Or.inr ⟨e, member, node⟩)
  · rintro below p b (same | ⟨e, member, node⟩)
    · cases same
    · exact below e member p b node

theorem groupable_of_bareWord {e : Expr} (word : e.isBareWord = true) : e.Groupable := by
  intro place body member
  cases e <;> simp [isBareWord, bareWord?, nodes] at word member

theorem isBareWord_of_operator {e : Expr} {operator : String}
    (found : e.operator? = some operator) : e.isBareWord = true := by
  rw [isBareWord, (Option.filter_eq_some_iff.mp found).1]
  rfl

theorem groupable_asHead (e : Expr) : e.asHead.Groupable ↔ e.Groupable := by
  cases word : e.isBareWord with
  | false => rw [asHead_of_not_bareWord word]
  | true =>
      exact iff_of_true (groupable_of_bareWord (e.isBareWord_asHead.trans word))
        (groupable_of_bareWord word)

theorem groupable_markHead (body : List Expr) :
    (∀ e ∈ markHead body, e.Groupable) ↔ ∀ e ∈ body, e.Groupable := by
  cases body with
  | nil => rfl
  | cons e rest => simp [markHead_cons, groupable_asHead]

theorem groupable_group {items : List Expr} (some : items ≠ []) (place : Location) :
    (group items place).Groupable ↔ GroupsFilled items ∧ ∀ e ∈ items, e.Groupable := by
  match items with
  | [e] =>
      cases word : e.isBareWord with
      | false =>
          have plain : e.operator? = none := by
            cases action : e.operator? with
            | none => rfl
            | some operator => rw [isBareWord_of_operator action] at word; cases word
          have filled : GroupsFilled [e] :=
            groupsFilled_of_no_link (by rw [chain_of_item plain]; rfl)
          simp [group_single word, filled]
      | true =>
          rw [group_word word, ← markHead_cons, groupable_call, groupsFilled_markHead,
            groupable_markHead]
  | first :: second :: rest =>
      rw [group_many, ← markHead_cons, groupable_call, groupsFilled_markHead, groupable_markHead]

theorem groupable_items {split : Split} (left : split.left ≠ []) (right : split.right ≠ [])
    (plain : chain split.right = (split.right, [])) :
    (∀ e ∈ split.items, e.Groupable) ↔
      GroupsFilled split.left ∧ (∀ e ∈ split.left, e.Groupable) ∧
        ∀ e ∈ split.right, e.Groupable := by
  have filled : GroupsFilled split.right := groupsFilled_of_no_link (by rw [plain])
  simp only [Split.items]
  split
  · have command := groupable_of_bareWord (e := .command split.place sequenceName) rfl
    simp [groupable_group left, groupable_group right, command, filled, and_assoc]
  · cases shape : split.right with
    | nil => exact absurd shape right
    | cons target rest =>
        have before := groupable_group left split.place
        simp only
        split <;> rw [groupable_markHead] <;>
          simp only [List.mem_cons, List.mem_append, List.not_mem_nil, or_false] <;> grind

/-- A failure at an operator word among the items of a call of the tree. -/
def FailsAtOperator (e : Expr) (failure : Failure) : Prop :=
  ∃ place body, .call place body ∈ e.nodes ∧ ∃ item ∈ body, ∃ operator,
    item.operator? = some operator ∧
      (failure = .at item.place (.missingLeft operator) ∨
        failure = .at item.place (.missingRight operator))

theorem failsAtOperator_of_mem {e form : Expr} {failure : Failure}
    (nodes : ∀ node ∈ e.nodes, node ∈ form.nodes) (fails : e.FailsAtOperator failure) :
    form.FailsAtOperator failure := by
  obtain ⟨place, body, node, rest⟩ := fails
  exact ⟨place, body, nodes _ node, rest⟩

theorem not_failsAtOperator_of_bareWord {e : Expr} (word : e.isBareWord = true)
    {failure : Failure} : ¬ e.FailsAtOperator failure := by
  rintro ⟨place, body, node, -⟩
  cases e <;> simp [isBareWord, bareWord?, nodes] at word node

theorem failsAtOperator_asHead {e : Expr} {failure : Failure}
    (fails : e.asHead.FailsAtOperator failure) : e.FailsAtOperator failure := by
  cases word : e.isBareWord with
  | false => rwa [asHead_of_not_bareWord word] at fails
  | true =>
      exact absurd fails (not_failsAtOperator_of_bareWord (e.isBareWord_asHead.trans word))

theorem failsAtOperator_call_of_item {place : Location} {body : List Expr} {failure : Failure}
    {e : Expr} (member : e ∈ body) (fails : e.FailsAtOperator failure) :
    (Expr.call place body).FailsAtOperator failure :=
  failsAtOperator_of_mem (fun _ node => mem_nodes_call.mpr (Or.inr ⟨e, member, node⟩)) fails

theorem failsAtOperator_markHead {place other : Location} {items body : List Expr}
    (among : ∀ e ∈ items, e ∈ body) {failure : Failure}
    (fails : (Expr.call place (markHead items)).FailsAtOperator failure) :
    (Expr.call other body).FailsAtOperator failure := by
  cases items with
  | nil =>
      obtain ⟨p, b, node, item, member, -⟩ := fails
      simp only [markHead, nodes, nodesAll, List.mem_singleton] at node
      cases node
      cases member
  | cons first rest =>
      rw [markHead_cons] at fails
      have head : first ∈ body := among first (by simp)
      obtain ⟨p, b, node, item, member, operator, found, failed⟩ := fails
      rcases mem_nodes_call.mp node with same | ⟨e, inside, below⟩
      · cases same
        refine ⟨other, body, self_mem_nodes _, ?_⟩
        rcases List.mem_cons.mp member with rfl | later
        · rw [place_asHead] at failed
          exact ⟨first, head, operator, first.operator?_asHead ▸ found, failed⟩
        · exact ⟨item, among item (by simp [later]), operator, found, failed⟩
      · have fails : e.FailsAtOperator failure :=
          ⟨p, b, below, item, member, operator, found, failed⟩
        rcases List.mem_cons.mp inside with rfl | later
        · exact failsAtOperator_call_of_item head (failsAtOperator_asHead fails)
        · exact failsAtOperator_call_of_item (among e (by simp [later])) fails

theorem failsAtOperator_group {items body : List Expr} {place other : Location}
    (among : ∀ e ∈ items, e ∈ body) {failure : Failure}
    (fails : (group items place).FailsAtOperator failure) :
    (Expr.call other body).FailsAtOperator failure := by
  match items with
  | [] => exact failsAtOperator_markHead among fails
  | [e] =>
      cases word : e.isBareWord with
      | false =>
          rw [group_single word] at fails
          exact failsAtOperator_call_of_item (among e (by simp)) fails
      | true =>
          rw [group_word word, ← markHead_cons] at fails
          exact failsAtOperator_markHead among fails
  | first :: second :: rest =>
      rw [group_many, ← markHead_cons] at fails
      exact failsAtOperator_markHead among fails

theorem failsAtOperator_of_split {body : List Expr} {split : Split}
    (found : splitLast? body = some split) {item : Expr} (member : item ∈ split.items)
    {failure : Failure} (fails : item.FailsAtOperator failure) (place : Location) :
    (Expr.call place body).FailsAtOperator failure := by
  obtain ⟨operator, whole, -, -⟩ := append_of_splitLast? found
  have left : ∀ e ∈ split.left, e ∈ body := by simp +contextual [whole]
  have right : ∀ e ∈ split.right, e ∈ body := by simp +contextual [whole]
  have before : (group split.left split.place).FailsAtOperator failure →
      (Expr.call place body).FailsAtOperator failure := failsAtOperator_group left
  simp only [Split.items] at member
  split at member
  · simp only [List.mem_cons, List.not_mem_nil, or_false] at member
    rcases member with rfl | rfl | rfl
    · exact absurd fails (not_failsAtOperator_of_bareWord rfl)
    · exact before fails
    · exact failsAtOperator_group right fails
  · cases shape : split.right with
    | nil =>
        simp only [shape, List.mem_singleton] at member
        exact before (member ▸ fails)
    | cons target rest =>
        have targetInside : target ∈ body := right target (by simp [shape])
        have restInside : ∀ e ∈ rest, e ∈ body := fun e inside => right e (by simp [shape, inside])
        simp only [shape] at member
        -- The group in front is put first or last among the arguments, as the operator has it.
        have position : item = target.asHead ∨ item ∈ rest ∨
            item = group split.left split.place := by
          split at member <;> simp only [markHead_cons, List.mem_cons, List.mem_append,
            List.not_mem_nil, or_false] at member <;> grind
        rcases position with rfl | later | rfl
        · exact failsAtOperator_call_of_item targetInside (failsAtOperator_asHead fails)
        · exact failsAtOperator_call_of_item (restInside item later) fails
        · exact before fails

/-! ## The pass -/

def PipesOutcome (e : Expr) : Except Failure Expr → Prop
  | .ok tree => e.Groupable ∧ tree = e.grouped
  | .error failure => ¬ e.Groupable ∧ e.FailsAtOperator failure

theorem mapM_pipesOutcome (items : List Expr)
    (each : ∀ e ∈ items, PipesOutcome e e.withPipes) :
    match items.mapM withPipes with
    | .ok trees => (∀ e ∈ items, e.Groupable) ∧ trees = items.map grouped
    | .error failure => ∃ e ∈ items, ¬ e.Groupable ∧ e.FailsAtOperator failure := by
  induction items with
  | nil => exact ⟨by simp, rfl⟩
  | cons first rest ih =>
      have here := each first (by simp)
      have later := ih fun e member => each e (by simp [member])
      rw [List.mapM_cons]
      cases action : first.withPipes with
      | error failure =>
          rw [action] at here
          exact ⟨first, by simp, here⟩
      | ok tree =>
          rw [action] at here
          cases others : rest.mapM withPipes with
          | error failure =>
              rw [others] at later
              obtain ⟨e, member, fails⟩ := later
              exact ⟨e, by simp [member], fails⟩
          | ok trees =>
              rw [others] at later
              exact ⟨by simpa using ⟨here.1, later.1⟩, by rw [List.map_cons, ← here.2, ← later.2]⟩

theorem pipesOutcome_row {form : Expr} {items : List Expr} (make : List Expr → Expr)
    (each : ∀ e ∈ items, PipesOutcome e e.withPipes)
    (groupable : form.Groupable ↔ ∀ e ∈ items, e.Groupable)
    (made : form.Groupable → form.grouped = make (items.map grouped))
    (fails : ∀ e ∈ items, ∀ failure, e.FailsAtOperator failure → form.FailsAtOperator failure) :
    PipesOutcome form (do
      let inner ← items.mapM withPipes
      return make inner) := by
  have outcome := mapM_pipesOutcome items each
  cases action : items.mapM withPipes with
  | ok trees =>
      rw [action] at outcome
      obtain ⟨all, rfl⟩ := outcome
      exact ⟨groupable.mpr all, (made (groupable.mpr all)).symm⟩
  | error failure =>
      rw [action] at outcome
      obtain ⟨e, member, empty, failed⟩ := outcome
      exact ⟨fun all => empty (groupable.mp all e member), fails e member failure failed⟩

theorem pipesOutcome_of_split {place : Location} {body : List Expr} {split : Split}
    (found : splitLast? body = some split) (left : split.left ≠ []) (right : split.right ≠ [])
    (each : ∀ e ∈ split.items, PipesOutcome e e.withPipes) :
    PipesOutcome (.call place body) (do
      let inner ← split.items.mapM withPipes
      return .call place inner) := by
  obtain ⟨operator, whole, word, -⟩ := append_of_splitLast? found
  have leaf := groupable_of_bareWord (isBareWord_of_operator word)
  have filled := groupsFilled_of_split found
  have items := groupable_items left right (chain_of_splitLast? found).2
  refine pipesOutcome_row (.call place) each ?_ ?_ fun e member failure fails =>
    failsAtOperator_of_split found member fails place
  · rw [groupable_call, filled, items, whole]
    simp only [List.mem_append, List.mem_cons]
    grind
  · intro groupable
    exact grouped_call_of_split found left right
      (filled.mp (groupable_call.mp groupable).1).2.2 place

theorem pipesOutcome_call (place : Location) (body : List Expr)
    (each : ∀ items, regroup body = .ok items → ∀ e ∈ items, PipesOutcome e e.withPipes) :
    PipesOutcome (.call place body) (withPipes (.call place body)) := by
  rw [withPipes_call]
  cases found : splitLast? body with
  | none =>
      have plain := chain_of_splitLast?_none found
      have same : regroup body = .ok body := by simp [regroup, found]
      rw [same]
      refine pipesOutcome_row (.call place) (each body same) ?_ ?_
        fun e member failure fails => failsAtOperator_call_of_item member fails
      · rw [groupable_call]
        exact and_iff_right (groupsFilled_of_no_link (by rw [plain]))
      · intro _
        rw [grouped_call, linked, chain_map_grouped, plain]
        rfl
  | some split =>
      obtain ⟨item, whole, operator, here⟩ := append_of_splitLast? found
      have member : item ∈ body := by simp [whole]
      have filled : (Expr.call place body).Groupable → _ := fun all =>
        (groupsFilled_of_split found).mp (groupable_call.mp all).1
      have fails : ∀ cause, cause = .missingLeft split.operator ∨
          cause = .missingRight split.operator →
          (Expr.call place body).FailsAtOperator (.at split.place cause) := by
        intro cause side
        refine ⟨place, body, self_mem_nodes _, item, member, split.operator, operator, ?_⟩
        rcases side with rfl | rfl <;> simp [here]
      -- Both sides of the last operator are checked, the left one first.
      by_cases left : split.left = []
      · have failed : regroup body = .error (.at split.place (.missingLeft split.operator)) := by
          simp [regroup, found, left]
        rw [failed]
        exact ⟨fun all => (filled all).1 left, fails _ (Or.inl rfl)⟩
      · by_cases right : split.right = []
        · have failed : regroup body = .error (.at split.place (.missingRight split.operator)) := by
            simp [regroup, found, left, right]
          rw [failed]
          exact ⟨fun all => (filled all).2.1 right, fails _ (Or.inr rfl)⟩
        · have done : regroup body = .ok split.items := by simp [regroup, found, left, right]
          rw [done]
          exact pipesOutcome_of_split found left right (each split.items done)

theorem pipesOutcome_withPipes (e : Expr) : PipesOutcome e e.withPipes := by
  -- The call that stands for what is before the last operator is no part of the tree, only smaller.
  induction size : e.size using Nat.strongRecOn generalizing e with
  | ind n ih =>
      subst size
      have below : ∀ {body : List Expr}, sizeAll body < e.size → ∀ x ∈ body,
          PipesOutcome x x.withPipes := fun smaller x member =>
        ih x.size (Nat.lt_of_le_of_lt (size_le_sizeAll member) smaller) x rfl
      cases e with
      | call place body =>
          exact pipesOutcome_call place body fun items done x member =>
            ih x.size (size_mem_regroup place done member) x rfl
      | array place body =>
          rw [withPipes_array]
          refine pipesOutcome_row (.array place) (below (by simp [size])) groupable_array
            (fun _ => by rw [grouped, groupedAll_eq_map]) fun x member failure fails =>
              failsAtOperator_of_mem (fun _ node => mem_nodes_array.mpr (Or.inr ⟨x, member, node⟩))
                fails
      | map place body =>
          rw [withPipes_map]
          refine pipesOutcome_row (.map place) (below (by simp [size])) groupable_map
            (fun _ => by rw [grouped, groupedAll_eq_map]) fun x member failure fails =>
              failsAtOperator_of_mem (fun _ node => mem_nodes_map.mpr (Or.inr ⟨x, member, node⟩))
                fails
      | _ =>
          simp only [withPipes]
          exact ⟨by simp [Groupable, nodes], rfl⟩

/-! ## Nothing lost, nothing doubled -/

theorem partsAll_eq_flatMap (body : List Expr) : partsAll body = body.flatMap parts := by
  induction body with
  | nil => rfl
  | cons e rest ih => rw [partsAll, ih, List.flatMap_cons]

theorem keptPartsAll_eq_flatMap (body : List Expr) :
    keptPartsAll body = body.flatMap keptParts := by
  induction body with
  | nil => rfl
  | cons e rest ih => rw [keptPartsAll, ih, List.flatMap_cons]

theorem parts_asHead (e : Expr) : e.asHead.parts = e.parts := by
  cases e with
  | value place literal => cases literal <;> rfl
  | _ => rfl

theorem parts_call (place : Location) (body : List Expr) :
    (Expr.call place body).parts = body.flatMap parts := by
  rw [parts, partsAll_eq_flatMap]

theorem parts_movedTo (place : Location) (e : Expr) : (e.movedTo place).parts = e.parts := by
  cases e <;> simp [movedTo, parts]

theorem flatMap_parts_markHead (body : List Expr) :
    (markHead body).flatMap parts = body.flatMap parts := by
  cases body with
  | nil => rfl
  | cons e rest => rw [markHead_cons, List.flatMap_cons, List.flatMap_cons, parts_asHead]

theorem parts_group (items : List Expr) (place : Location) :
    (group items place).parts = items.flatMap parts := by
  match items with
  | [] => rfl
  | [e] =>
      cases word : e.isBareWord with
      | false => simp [group_single word]
      | true => simp [group_word word, parts_call, parts_asHead]
  | first :: second :: rest => simp [group_many, parts_call, parts_asHead]

def Link.parts (link : Link) : List Expr :=
  operatorParts link.place link.operator ++ link.items.flatMap Expr.parts

theorem parts_join (link : Link) (before : Expr) (place : Location) :
    (Expr.call place (link.join before)).parts.Perm (before.parts ++ link.parts) := by
  rw [parts_call, Link.join, Link.parts, operatorParts]
  split
  · simp only [List.flatMap_cons, List.flatMap_nil, List.append_nil, parts_group]
    exact List.perm_append_comm_assoc _ _ _
  · cases shape : link.items with
    | nil => simp
    | cons target rest =>
        simp only
        split <;> rw [flatMap_parts_markHead]
        · simp only [List.flatMap_cons, List.nil_append]
          exact List.perm_append_comm_assoc _ _ _
        · simp only [List.flatMap_cons, List.flatMap_append, List.flatMap_nil, List.append_nil,
            List.nil_append]
          rw [← List.append_assoc]
          exact List.perm_append_comm

theorem parts_joinLinks (first : Expr) (links : List Link) :
    (joinLinks first links).parts.Perm (first.parts ++ links.flatMap Link.parts) := by
  induction links generalizing first with
  | nil => simp [joinLinks]
  | cons link rest ih =>
      refine (ih _).trans ?_
      rw [List.flatMap_cons, ← List.append_assoc]
      exact (parts_join link first first.place).append_right _

/-- What a row of items leaves behind when its operators are taken out. -/
def chainParts (body : List Expr) : List Expr :=
  (chain body).1.flatMap parts ++ (chain body).2.flatMap Link.parts

theorem parts_linked (place : Location) (body : List Expr) :
    (linked place body).parts.Perm (chainParts body) := by
  unfold linked chainParts
  split
  · rename_i none
    rw [none, chain_fst_of_no_link none, parts_call]
    simp
  · rw [parts_movedTo]
    exact (parts_joinLinks _ _).trans (by rw [parts_group])

theorem chainParts_cons_operator {e : Expr} {operator : String}
    (found : e.operator? = some operator) (rest : List Expr) :
    chainParts (e :: rest) = operatorParts e.place operator ++ chainParts rest := by
  simp [chainParts, chain_of_operator found, Link.parts]

theorem chainParts_cons_item {e : Expr} (item : e.operator? = none) (rest : List Expr) :
    chainParts (e :: rest) = e.parts ++ chainParts rest := by
  simp [chainParts, chain_of_item item]

theorem chainParts_map_grouped (body : List Expr)
    (each : ∀ e ∈ body, e.grouped.parts.Perm e.keptParts) :
    (chainParts (body.map grouped)).Perm (keptItems body) := by
  induction body with
  | nil => exact List.Perm.refl _
  | cons e rest ih =>
      have later := ih fun x member => each x (by simp [member])
      rw [List.map_cons, keptItems]
      cases action : e.operator? with
      | some operator =>
          rw [chainParts_cons_operator (e.operator?_grouped.trans action), place_grouped]
          exact later.append_left _
      | none =>
          rw [chainParts_cons_item (e.operator?_grouped.trans action)]
          exact (each e (by simp)).append later

theorem flatMap_parts_map_grouped (body : List Expr)
    (each : ∀ e ∈ body, e.grouped.parts.Perm e.keptParts) :
    ((body.map grouped).flatMap parts).Perm (body.flatMap keptParts) := by
  rw [List.flatMap_map]
  exact List.Perm.flatMap_left body each

theorem parts_grouped (e : Expr) : e.grouped.parts.Perm e.keptParts := by
  induction e using Expr.induction with
  | call place body ih =>
      rw [grouped_call, keptParts]
      exact (parts_linked place _).trans (chainParts_map_grouped body ih)
  | array place body ih =>
      rw [grouped, parts, keptParts, groupedAll_eq_map, partsAll_eq_flatMap,
        keptPartsAll_eq_flatMap]
      exact (flatMap_parts_map_grouped body ih).cons _
  | map place body ih =>
      rw [grouped, parts, keptParts, groupedAll_eq_map, partsAll_eq_flatMap,
        keptPartsAll_eq_flatMap]
      exact (flatMap_parts_map_grouped body ih).cons _
  | value place literal => exact List.Perm.refl _
  | command place name => exact List.Perm.refl _
  | reference place name => exact List.Perm.refl _

/-! ## The statement -/

/-- The pass over operators joins the groups of every call from the left and keeps every item; when
an operator has no items on one side, it fails to read, at an operator. -/
theorem withPipes_joins_groups (e : Expr) :
    (e.Groupable → e.withPipes = .ok e.grouped ∧ e.grouped.parts.Perm e.keptParts) ∧
      (¬ e.Groupable → ∃ place body, .call place body ∈ e.nodes ∧
        ∃ item ∈ body, ∃ operator cause, item.operator? = some operator ∧
          (cause = .missingLeft operator ∨ cause = .missingRight operator) ∧
          cause.kind = .reading ∧ e.withPipes = .error (.at item.place cause)) := by
  have outcome := pipesOutcome_withPipes e
  constructor
  · intro groupable
    refine ⟨?_, parts_grouped e⟩
    cases action : e.withPipes with
    | ok tree =>
        rw [action] at outcome
        rw [outcome.2]
    | error failure =>
        rw [action] at outcome
        exact absurd groupable outcome.1
  · intro empty
    cases action : e.withPipes with
    | ok tree =>
        rw [action] at outcome
        exact absurd outcome.1 empty
    | error failure =>
        rw [action] at outcome
        obtain ⟨place, body, node, item, member, operator, found, rfl | rfl⟩ := outcome.2
        · exact ⟨place, body, node, item, member, operator, _, found, Or.inl rfl, rfl, rfl⟩
        · exact ⟨place, body, node, item, member, operator, _, found, Or.inr rfl, rfl, rfl⟩

/-- `(a b | f x ; g)` is `(do (f (a b) x) (g))`. -/
example (p : Location) :
    let word (text : String) : Expr := .value p (.word text)
    (Expr.call p
        [.command p "a", word "b", word "|", word "f", word "x", word ";", word "g"]).grouped =
      .call p [.command p "do",
        .call p [.command p "f", .call p [.command p "a", word "b"], word "x"],
        .call p [.command p "g"]] := rfl

/-- The pass as it stands among the passes joins the groups in the same way; the tree may then be too
deep for those that follow. -/
theorem withPipesWithin_eq (limit : Nat) (e : Expr) :
    (e.Groupable → e.withPipesWithin limit =
        if limit < e.grouped.height then .error .tooDeep else .ok e.grouped) ∧
      (¬ e.Groupable → e.withPipesWithin limit = e.withPipes) := by
  have outcome := pipesOutcome_withPipes e
  unfold withPipesWithin
  cases action : e.withPipes with
  | ok tree =>
      rw [action] at outcome
      obtain ⟨groupable, rfl⟩ := outcome
      exact ⟨fun _ => rfl, fun empty => absurd groupable empty⟩
  | error failure =>
      rw [action] at outcome
      exact ⟨fun groupable => absurd groupable outcome.1, fun _ => rfl⟩

end ShellLisp.Expr
