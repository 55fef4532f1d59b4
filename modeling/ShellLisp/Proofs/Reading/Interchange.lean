import ShellLisp.Proofs.Reading.Alike

/-!
# Expressions that may stand for each other

Two ways to write an expression may be interchanged wherever it stands when the pass over dotted
names gives the same for both, once the operators around it are rewritten. Forms of such expressions
may be interchanged too, and so may calls whose heads differ in that way, as long as no operator
makes one of the heads a call by itself. The main statement is that all passes give the same for
trees that may be interchanged.
-/

namespace ShellLisp.Expr

/-! ## What the pass over dotted names gives -/

/-- What the pass over dotted names makes of a tree, its places aside. -/
def resolution (e : Expr) : Option Expr := e.placeless.withMembers.toOption

theorem toOption_bind {α β : Type} (action : Except Failure α) (next : α → Except Failure β) :
    (action >>= next).toOption = action.toOption.bind fun a => (next a).toOption := by
  cases action <;> rfl

theorem toOption_mapM {α β : Type} (change : α → Except Failure β) (row : List α) :
    (row.mapM change).toOption = row.mapM fun a => (change a).toOption := by
  induction row with
  | nil => rfl
  | cons a rest ih =>
      rw [List.mapM_cons, List.mapM_cons, toOption_bind, ← ih]
      cases change a with
      | error failure => rfl
      | ok b => cases rest.mapM change <;> rfl

def rowResolution (row : List Expr) : Option (List Expr) := (row.map resolution).mapM id

theorem rowResolution_eq (row : List Expr) :
    rowResolution row = ((row.map placeless).mapM withMembers).toOption := by
  rw [toOption_mapM]
  induction row with
  | nil => rfl
  | cons e rest ih =>
      rw [rowResolution] at ih ⊢
      simp only [List.map_cons, List.mapM_cons, ih, id]
      rfl

theorem resolution_of_rows {form : Expr} {make : List Expr → Expr} {body : List Expr}
    (items : form.placeless.withMembers = do
      return make (← (body.map placeless).mapM withMembers)) :
    form.resolution = (rowResolution body).map make := by
  rw [resolution, items, toOption_bind, rowResolution_eq]
  cases ((body.map placeless).mapM withMembers).toOption <;> rfl

theorem resolution_call {body : List Expr}
    (other : ∀ place name, body.head? = some (.command place name) → isMemberCommand name = false)
    (place : Location) :
    (Expr.call place body).resolution = (rowResolution body).map (.call .nowhere) :=
  resolution_of_rows (by
    rw [placeless, placelessAll_eq_map, withMembers_call (head_placeless other)])

theorem resolution_array (place : Location) (body : List Expr) :
    (Expr.array place body).resolution = (rowResolution body).map (.array .nowhere) :=
  resolution_of_rows (by
    rw [placeless, placelessAll_eq_map, withMembers, withMembersAll_eq_mapM])

theorem resolution_map (place : Location) (body : List Expr) :
    (Expr.map place body).resolution = (rowResolution body).map (.map .nowhere) :=
  resolution_of_rows (by
    rw [placeless, placelessAll_eq_map, withMembers, withMembersAll_eq_mapM])

theorem resolution_member {name : String} (member : isMemberCommand name = true)
    {first second : List Expr} (same : first.map resolution = second.map resolution)
    (place other commandPlace otherPlace : Location) :
    (Expr.call place (.command commandPlace name :: first)).resolution =
      (Expr.call other (.command otherPlace name :: second)).resolution := by
  have count : first.length = second.length := by simpa using congrArg List.length same
  have rows : rowResolution first = rowResolution second := congrArg (List.mapM id) same
  have items : memberItems .nowhere .nowhere name (first.map placeless) =
      memberItems .nowhere .nowhere name (second.map placeless) := by
    simp only [memberItems, List.length_map, count]
  rw [rowResolution_eq, rowResolution_eq] at rows
  rw [resolution, resolution, placeless, placeless, placelessAll, placelessAll, placeless,
    placeless, placelessAll_eq_map, placelessAll_eq_map, withMembers_call_of_member member,
    withMembers_call_of_member member, items, toOption_bind, toOption_bind]
  congr 1
  funext parts
  rw [toOption_bind, toOption_bind, rows]

/-! ## Items of a call whose operators are rewritten -/

/-- Two items that are the same word, or no words, and of which the pass makes the same. -/
structure ItemAlike (a b : Expr) : Prop where
  word : a.bareWord? = b.bareWord?
  same : a.resolution = b.resolution

def HeadAlike (a b : Expr) : Prop :=
  ∀ (place other : Location) (first second : List Expr),
    first.map resolution = second.map resolution →
      (Expr.call place (a.asHead :: first)).resolution =
        (Expr.call other (b.asHead :: second)).resolution

theorem ItemAlike.operator? {a b : Expr} (alike : ItemAlike a b) : a.operator? = b.operator? := by
  rw [Expr.operator?, Expr.operator?, alike.word]

theorem ItemAlike.isBareWord {a b : Expr} (alike : ItemAlike a b) :
    a.isBareWord = b.isBareWord := by
  rw [Expr.isBareWord, Expr.isBareWord, alike.word]

theorem alike_call {place other : Location} {first second : List Expr}
    (same : (Expr.call place first).resolution = (Expr.call other second).resolution) :
    ItemAlike (.call place first) (.call other second) := ⟨rfl, same⟩

theorem asHead_of_bareWord? {e : Expr} {name : String} (word : e.bareWord? = some name) :
    ∃ place, e.asHead = .command place name := by
  cases e with
  | value place literal => cases literal <;> cases word; exact ⟨place, rfl⟩
  | command place found => cases word; exact ⟨place, rfl⟩
  | _ => cases word

theorem not_member_of_not_bareWord {e : Expr} (long : e.isBareWord = false) (rest : List Expr)
    (place : Location) (name : String)
    (head : (e :: rest).head? = some (.command place name)) : isMemberCommand name = false := by
  cases head
  cases long

theorem ItemAlike.head {a b : Expr} (alike : ItemAlike a b) : HeadAlike a b := by
  intro place other first second same
  cases word : a.bareWord? with
  | some name =>
      obtain ⟨p, left⟩ := asHead_of_bareWord? word
      obtain ⟨q, right⟩ := asHead_of_bareWord? (alike.word ▸ word)
      rw [left, right]
      cases member : isMemberCommand name with
      | true => exact resolution_member member same place other p q
      | false =>
          rw [resolution_call (by rintro _ _ ⟨⟩; exact member),
            resolution_call (by rintro _ _ ⟨⟩; exact member), rowResolution, rowResolution,
            List.map_cons, List.map_cons, same]
          rfl
  | none =>
      have long : a.isBareWord = false := by rw [Expr.isBareWord, word]; rfl
      have longToo : b.isBareWord = false := alike.isBareWord ▸ long
      rw [asHead_of_not_bareWord long, asHead_of_not_bareWord longToo,
        resolution_call (not_member_of_not_bareWord long first),
        resolution_call (not_member_of_not_bareWord longToo second), rowResolution, rowResolution,
        List.map_cons, List.map_cons, same, alike.same]

theorem map_resolution_of_alike {first second : List Expr}
    (alike : List.Forall₂ ItemAlike first second) :
    first.map resolution = second.map resolution := by
  induction alike with
  | nil => rfl
  | cons head _ ih => rw [List.map_cons, List.map_cons, head.same, ih]

/-! ## Groups and links -/

theorem nil_iff_of_forall₂ {α β : Type} {related : α → β → Prop} {first : List α} {second : List β}
    (each : List.Forall₂ related first second) : first = [] ↔ second = [] := by
  rw [← List.length_eq_zero_iff, ← List.length_eq_zero_iff, each.length_eq]

theorem alike_group {first second : List Expr} (alike : List.Forall₂ ItemAlike first second)
    (place other : Location) : ItemAlike (group first place) (group second other) := by
  match alike with
  | .nil => exact ⟨rfl, rfl⟩
  | .cons (a := a) (b := b) head .nil =>
      cases word : a.isBareWord with
      | false =>
          rw [group_single word, group_single (head.isBareWord ▸ word)]
          exact head
      | true =>
          rw [group_word word, group_word (head.isBareWord ▸ word)]
          exact alike_call (head.head _ _ [] [] rfl)
  | .cons head (.cons next rest) =>
      rw [group_many, group_many]
      exact alike_call (head.head _ _ _ _ (map_resolution_of_alike (.cons next rest)))

/-- Two operators with the groups behind them that make the same of what stands before them. -/
structure LinkAlike (first second : Link) : Prop where
  filled : first.items = [] ↔ second.items = []
  join : ∀ before other, ItemAlike before other → before.isBareWord = false → ∀ p q,
    ItemAlike (.call p (first.join before)) (.call q (second.join other))

theorem alike_joinLinks {links others : List Link} (alike : List.Forall₂ LinkAlike links others)
    {first second : Expr} (start : ItemAlike first second) (long : first.isBareWord = false) :
    ItemAlike (joinLinks first links) (joinLinks second others) := by
  induction alike generalizing first second with
  | nil => exact start
  | cons link _ ih => exact ih (link.join _ _ start long _ _) rfl

section
variable {place other : Location} {operator : String} {first second : List Expr}

theorem linkAlike_of_group (filled : first = [] ↔ second = [])
    (group : ItemAlike (group first place) (group second other)) :
    LinkAlike ⟨place, ";", first⟩ ⟨other, ";", second⟩ := by
  refine ⟨filled, fun before after alike _ p q => ?_⟩
  have head : ItemAlike (.command place sequenceName) (.command other sequenceName) := ⟨rfl, rfl⟩
  exact alike_call (head.head _ _ _ _ (by simp [alike.same, group.same]))

theorem linkAlike_of_head {target targetToo : Expr} (pipe : operator ≠ ";")
    (head : HeadAlike target targetToo) (rest : List.Forall₂ ItemAlike first second) :
    LinkAlike ⟨place, operator, target :: first⟩ ⟨other, operator, targetToo :: second⟩ := by
  refine ⟨by simp, fun before after alike _ p q => ?_⟩
  have same := map_resolution_of_alike rest
  simp only [Link.join, if_neg pipe]
  split <;> rw [markHead_cons, markHead_cons]
  · exact alike_call (head _ _ _ _ (by simp [alike.same, same]))
  · exact alike_call (head _ _ _ _ (by simp [alike.same, same]))

theorem linkAlike_of_items (items : List.Forall₂ ItemAlike first second) :
    LinkAlike ⟨place, operator, first⟩ ⟨other, operator, second⟩ := by
  by_cases sequence : operator = ";"
  · subst sequence
    exact linkAlike_of_group (nil_iff_of_forall₂ items) (alike_group items _ _)
  · cases items with
    | nil =>
        refine ⟨Iff.rfl, fun before after alike long p q => ?_⟩
        simp only [Link.join, if_neg sequence]
        have whole := alike.head p q [] [] rfl
        rw [asHead_of_not_bareWord long, asHead_of_not_bareWord (alike.isBareWord ▸ long)] at whole
        exact alike_call whole
    | cons head rest => exact linkAlike_of_head sequence head.head rest

end

/-! ## Rows -/

theorem isBareWord_group (items : List Expr) (place : Location) :
    (group items place).isBareWord = false := by
  match items with
  | [] => rfl
  | [e] =>
      cases word : e.isBareWord with
      | false => rw [group_single word, word]
      | true => rw [group_word word]; rfl
  | first :: second :: rest => rw [group_many]; rfl

structure RowAlike (first second : List Expr) : Prop where
  filled : (chain first).1 = [] ↔ (chain second).1 = []
  whole : (chain first).2 = [] →
    ∀ p q, ItemAlike (.call p (markHead first)) (.call q (markHead second))
  group : (chain first).2 ≠ [] →
    ∀ p q, ItemAlike (group (chain first).1 p) (group (chain second).1 q)
  links : List.Forall₂ LinkAlike (chain first).2 (chain second).2

theorem alike_movedTo {a b : Expr} (alike : ItemAlike a b) (p q : Location) :
    ItemAlike (a.movedTo p) (b.movedTo q) := by
  have word : ∀ (e : Expr) place, (e.movedTo place).bareWord? = e.bareWord? := by
    intro e place
    cases e <;> rfl
  have same : ∀ (e : Expr) place, (e.movedTo place).resolution = e.resolution := by
    intro e place
    cases e <;> rfl
  exact ⟨by rw [word, word, alike.word], by rw [same, same, alike.same]⟩

theorem RowAlike.linked {first second : List Expr} (alike : RowAlike first second)
    (p q : Location) : ItemAlike (linked p (markHead first)) (linked q (markHead second)) := by
  obtain ⟨-, whole, group, links⟩ := alike
  unfold Expr.linked
  rw [chain_markHead, chain_markHead]
  cases plain : (chain first).2 with
  | nil =>
      have nothing : (chain second).2 = [] := by simpa [plain] using links
      rw [nothing]
      exact whole plain p q
  | cons link rest =>
      rw [plain] at links
      obtain ⟨otherLink, otherRest, -, -, same⟩ := List.forall₂_cons_left_iff.mp links
      rw [same] at links ⊢
      refine alike_movedTo (alike_joinLinks links ?_ (isBareWord_group _ _)) p q
      rw [group_markHead, group_markHead]
      exact group (by simp [plain]) p q

theorem RowAlike.groupsFilled {first second : List Expr} (alike : RowAlike first second) :
    GroupsFilled first ↔ GroupsFilled second := by
  have empty := nil_iff_of_forall₂ alike.links
  have each : ∀ {links others : List Link}, List.Forall₂ LinkAlike links others →
      ((∀ link ∈ links, link.items ≠ []) ↔ ∀ link ∈ others, link.items ≠ []) := by
    intro links others alike
    induction alike with
    | nil => rfl
    | cons head _ ih => simp [ih, head.filled]
  rw [GroupsFilled, GroupsFilled, Ne, Ne, Ne, Ne, empty, alike.filled, each alike.links]

theorem chain_of_alike {first second : List Expr} (alike : List.Forall₂ ItemAlike first second) :
    List.Forall₂ ItemAlike (chain first).1 (chain second).1 ∧
      List.Forall₂ LinkAlike (chain first).2 (chain second).2 := by
  induction alike with
  | nil => exact ⟨.nil, .nil⟩
  | @cons a b rest others head _ ih =>
      obtain ⟨group, links⟩ := ih
      cases action : a.operator? with
      | some operator =>
          rw [chain_of_operator action, chain_of_operator (head.operator? ▸ action)]
          exact ⟨.nil, .cons (linkAlike_of_items group) links⟩
      | none =>
          rw [chain_of_item action, chain_of_item (head.operator? ▸ action)]
          exact ⟨.cons head group, links⟩

theorem rowAlike_of_items {first second : List Expr}
    (alike : List.Forall₂ ItemAlike first second) : RowAlike first second := by
  obtain ⟨group, links⟩ := chain_of_alike alike
  refine ⟨nil_iff_of_forall₂ group, fun plain p q => ?_, fun _ p q => alike_group group p q, links⟩
  cases alike with
  | nil => exact ⟨rfl, rfl⟩
  | cons head rest =>
      rw [markHead_cons, markHead_cons]
      exact alike_call (head.head _ _ _ _ (map_resolution_of_alike rest))

/-! ## Rows that differ in the head of a group -/

theorem chain_append_operator {e : Expr} {operator : String} (found : e.operator? = some operator)
    (left right : List Expr) :
    chain (left ++ e :: right) =
      ((chain left).1,
        (chain left).2 ++ ⟨e.place, operator, (chain right).1⟩ :: (chain right).2) := by
  induction left with
  | nil => exact chain_of_operator found right
  | cons first rest ih =>
      rw [List.cons_append]
      cases action : first.operator? with
      | some name => rw [chain_of_operator action, chain_of_operator action, ih]; rfl
      | none => rw [chain_of_item action, chain_of_item action, ih]

theorem forall₂_refl {α : Type} {related : α → α → Prop} (self : ∀ a, related a a) (row : List α) :
    List.Forall₂ related row row := List.forall₂_same.mpr fun a _ => self a

theorem ItemAlike.refl (e : Expr) : ItemAlike e e := ⟨rfl, rfl⟩

section
variable {left right other : List Expr} {head headToo : Expr}

/-- Two rows that differ in the head of a group, the first item of the row or one behind an
operator. -/
theorem rowAlike_of_group (starts : ∀ e ∈ left.getLast?, e.operator?.isSome = true)
    (item : head.operator? = none) (itemToo : headToo.operator? = none)
    (rest : List.Forall₂ ItemAlike right other)
    (whole : left = [] → (chain right).2 = [] →
      ∀ p q, ItemAlike (.call p (markHead (head :: right))) (.call q (markHead (headToo :: other))))
    (group : (left = [] → (chain right).2 ≠ []) →
      (∀ e ∈ left.getLast?, e.operator? = some ";") → ∀ p q,
        ItemAlike (group (head :: (chain right).1) p) (group (headToo :: (chain other).1) q))
    (pipe : ∀ e ∈ left.getLast?, e.operator? ≠ some ";" → HeadAlike head headToo) :
    RowAlike (left ++ head :: right) (left ++ headToo :: other) := by
  obtain ⟨groups, links⟩ := chain_of_alike rest
  -- The group of the head is the first of the row, or that of the last operator in front.
  rcases List.eq_nil_or_concat' left with rfl | ⟨before, last, rfl⟩
  · refine ⟨by simp [chain_of_item item, chain_of_item itemToo], fun plain => ?_,
      fun some => ?_, ?_⟩
    · rw [List.nil_append, chain_of_item item] at plain
      exact whole rfl plain
    · rw [List.nil_append, chain_of_item item] at some ⊢
      rw [List.nil_append, chain_of_item itemToo]
      exact group (fun _ => some) nofun
    · rw [List.nil_append, List.nil_append, chain_of_item item, chain_of_item itemToo]
      exact links
  · obtain ⟨operator, found⟩ := Option.isSome_iff_exists.mp (starts last (by simp))
    have earlier := chain_of_alike (forall₂_refl ItemAlike.refl before)
    have link : LinkAlike ⟨last.place, operator, head :: (chain right).1⟩
        ⟨last.place, operator, headToo :: (chain other).1⟩ := by
      by_cases sequence : operator = ";"
      · subst sequence
        refine linkAlike_of_group (by simp) (group (by simp) ?_ _ _)
        simpa using found
      · exact linkAlike_of_head sequence
          (pipe last (by simp) (by simpa [found] using sequence)) groups
    rw [List.append_assoc, List.append_assoc, List.singleton_append, List.singleton_append]
    refine ⟨?_, fun plain => ?_, fun _ => ?_, ?_⟩
    · rw [chain_append_operator found, chain_append_operator found]
    · simp [chain_append_operator found] at plain
    · rw [chain_append_operator found, chain_append_operator found]
      exact fun p q => alike_group earlier.1 p q
    · rw [chain_append_operator found, chain_append_operator found, chain_of_item item,
        chain_of_item itemToo]
      exact List.rel_append earlier.2 (.cons link links)

theorem rowAlike_of_head (starts : ∀ e ∈ left.getLast?, e.operator?.isSome = true)
    (item : head.operator? = none) (itemToo : headToo.operator? = none)
    (heads : HeadAlike head headToo) (rest : List.Forall₂ ItemAlike right other)
    (company : (∃ e ∈ left.getLast?, e.operator? ≠ some ";") ∨
      (∃ e ∈ right.head?, e.operator? = none) ∨ left = [] ∧ right = []) :
    RowAlike (left ++ head :: right) (left ++ headToo :: other) := by
  refine rowAlike_of_group starts item itemToo rest (fun _ _ p q => ?_) (fun links last p q => ?_)
    fun _ _ _ => heads
  · rw [markHead_cons, markHead_cons]
    exact alike_call (heads _ _ _ _ (map_resolution_of_alike rest))
  · rcases company with ⟨e, member, pipe⟩ | ⟨e, member, plain⟩ | ⟨rfl, rfl⟩
    · exact absurd (last e member) pipe
    · obtain ⟨tail, rfl⟩ := List.head?_eq_some_iff.mp member
      cases rest with
      | @cons _ b _ others alike rest =>
          have groups := (chain_of_alike rest).1
          rw [chain_of_item plain, chain_of_item (alike.operator? ▸ plain), group_many, group_many]
          exact alike_call (heads _ _ _ _ (map_resolution_of_alike (.cons alike groups)))
    · exact absurd rfl (links rfl)

theorem rowAlike_of_single (starts : ∀ e ∈ left.getLast?, e.operator?.isSome = true)
    (item : head.operator? = none) (word : head.isBareWord = true)
    (long : headToo.isBareWord = false)
    (single : ∀ p, ItemAlike (.call p [head.asHead]) headToo)
    (rest : List.Forall₂ ItemAlike right other)
    (sequence : ∀ e ∈ left.getLast?, e.operator? = some ";")
    (alone : (∃ e ∈ right.head?, e.operator?.isSome = true) ∨ left ≠ [] ∧ right = []) :
    RowAlike (left ++ head :: right) (left ++ headToo :: other) := by
  have itemToo : headToo.operator? = none := by
    cases action : headToo.operator? with
    | none => rfl
    | some operator => rw [isBareWord_of_operator action] at long; cases long
  refine rowAlike_of_group starts item itemToo rest (fun first plain => ?_) (fun _ _ p q => ?_)
    fun e member pipe => absurd (sequence e member) pipe
  · rcases alone with ⟨e, member, some⟩ | ⟨filled, -⟩
    · obtain ⟨tail, rfl⟩ := List.head?_eq_some_iff.mp member
      obtain ⟨operator, found⟩ := Option.isSome_iff_exists.mp some
      simp [chain_of_operator found] at plain
    · exact absurd first filled
  · have nothing : (chain right).1 = [] := by
      rcases alone with ⟨e, member, some⟩ | ⟨-, rfl⟩
      · obtain ⟨tail, rfl⟩ := List.head?_eq_some_iff.mp member
        obtain ⟨operator, found⟩ := Option.isSome_iff_exists.mp some
        rw [chain_of_operator found]
      · rfl
    have nothingToo := (nil_iff_of_forall₂ (chain_of_alike rest).1).mp nothing
    rw [nothing, nothingToo, group_word word, group_single long]
    exact single _

end

/-! ## Trees that may be interchanged -/

/-- A tree with its heads marked and the groups of its calls joined. -/
def joined (e : Expr) : Expr := e.withCommands.grouped

/-- Two trees that may stand for each other in every place. -/
structure Interchangeable (a b : Expr) : Prop where
  word : a.bareWord? = b.bareWord?
  groupable : a.withCommands.Groupable ↔ b.withCommands.Groupable
  same : a.withCommands.Groupable → a.joined.resolution = b.joined.resolution

theorem bareWord?_withCommands (e : Expr) : e.withCommands.bareWord? = e.bareWord? := by
  cases e <;> rfl

theorem bareWord?_joined (e : Expr) : e.joined.bareWord? = e.bareWord? := by
  rw [joined, bareWord?_grouped, bareWord?_withCommands]

theorem operator?_joined (e : Expr) : e.joined.operator? = e.operator? := by
  rw [Expr.operator?, Expr.operator?, bareWord?_joined]

theorem Interchangeable.refl (e : Expr) : Interchangeable e e := ⟨rfl, Iff.rfl, fun _ => rfl⟩

theorem Interchangeable.symm {a b : Expr} (alike : Interchangeable a b) : Interchangeable b a :=
  ⟨alike.word.symm, alike.groupable.symm, fun groupable =>
    (alike.same (alike.groupable.mpr groupable)).symm⟩

theorem Interchangeable.trans {a b c : Expr} (first : Interchangeable a b)
    (second : Interchangeable b c) : Interchangeable a c :=
  ⟨first.word.trans second.word, first.groupable.trans second.groupable, fun groupable =>
    (first.same groupable).trans (second.same (first.groupable.mp groupable))⟩

theorem Interchangeable.alike {a b : Expr} (alike : Interchangeable a b)
    (groupable : a.withCommands.Groupable) : ItemAlike a.joined b.joined :=
  ⟨by rw [bareWord?_joined, bareWord?_joined, alike.word], alike.same groupable⟩

theorem withPipes_toOption (e : Expr) [Decidable e.Groupable] :
    e.withPipes.toOption = if e.Groupable then some e.grouped else none := by
  have outcome := pipesOutcome_withPipes e
  cases action : e.withPipes with
  | ok tree =>
      rw [action] at outcome
      rw [if_pos outcome.1, ← outcome.2]
      rfl
  | error failure =>
      rw [action] at outcome
      rw [if_neg outcome.1]
      rfl

theorem interchangeable_of_withCommands {a b : Expr} (word : a.bareWord? = b.bareWord?)
    (marked : a.withCommands.placeless = b.withCommands.placeless) : Interchangeable a b := by
  classical
  have pipes : a.withCommands.withPipes.toOption.map placeless =
      b.withCommands.withPipes.toOption.map placeless := by
    have first := follows_withPipes a.withCommands
    have second := follows_withPipes b.withCommands
    rw [Follows] at first second
    rw [← first, ← second, marked]
  rw [withPipes_toOption, withPipes_toOption] at pipes
  refine ⟨word, ?_, fun groupable => ?_⟩
  · split at pipes <;> split at pipes <;> simp_all
  · rw [if_pos groupable] at pipes
    split at pipes
    · rw [resolution, resolution, joined, joined, Option.some.inj pipes]
    · cases pipes

theorem interchangeable_of_placeless {a b : Expr} (equal : a.placeless = b.placeless) :
    Interchangeable a b := by
  have word : ∀ e : Expr, e.placeless.bareWord? = e.bareWord? := by
    intro e
    cases e with
    | value place literal => cases literal <;> rfl
    | _ => rfl
  refine interchangeable_of_withCommands (by rw [← word a, equal, word]) ?_
  rw [← withCommands_placeless, ← withCommands_placeless, equal]

/-! ## Forms -/

theorem joined_call (place : Location) (body : List Expr) :
    (Expr.call place body).joined = linked place (markHead (body.map joined)) := by
  rw [joined, withCommands, withCommandsAll_eq_map, grouped_call, markHead_map_grouped,
    List.map_map]
  rfl

theorem groupable_withCommands_call {place : Location} {body : List Expr} :
    (Expr.call place body).withCommands.Groupable ↔
      GroupsFilled (body.map joined) ∧ ∀ e ∈ body, e.withCommands.Groupable := by
  have filled : GroupsFilled ((body.map withCommands).map grouped) ↔
      GroupsFilled (body.map withCommands) := by
    rw [GroupsFilled, GroupsFilled, chain_map_grouped]
    simp [Link.map]
  rw [withCommands, withCommandsAll_eq_map, groupable_call, groupable_markHead,
    groupsFilled_markHead, ← filled, List.map_map, List.forall_mem_map]
  rfl

section
variable {first second : List Expr} (place other : Location)

theorem interchangeable_call
    (groupable : (∀ e ∈ first, e.withCommands.Groupable) ↔ ∀ e ∈ second, e.withCommands.Groupable)
    (row : (∀ e ∈ first, e.withCommands.Groupable) →
      RowAlike (first.map joined) (second.map joined)) :
    Interchangeable (.call place first) (.call other second) := by
  refine ⟨rfl, ?_, fun both => ?_⟩
  · rw [groupable_withCommands_call, groupable_withCommands_call, ← groupable]
    exact and_congr_left fun all => (row all).groupsFilled
  · rw [joined_call, joined_call]
    exact ((row (groupable_withCommands_call.mp both).2).linked place other).same

theorem forall_groupable (each : List.Forall₂ Interchangeable first second) :
    (∀ e ∈ first, e.withCommands.Groupable) ↔ ∀ e ∈ second, e.withCommands.Groupable := by
  induction each with
  | nil => simp
  | cons head _ ih => rw [List.forall_mem_cons, List.forall_mem_cons, head.groupable, ih]

theorem forall₂_alike (each : List.Forall₂ Interchangeable first second)
    (groupable : ∀ e ∈ first, e.withCommands.Groupable) :
    List.Forall₂ ItemAlike (first.map joined) (second.map joined) := by
  induction each with
  | nil => exact .nil
  | cons head _ ih =>
      obtain ⟨here, others⟩ := List.forall_mem_cons.mp groupable
      exact .cons (head.alike here) (ih others)

theorem rowResolution_of_interchangeable (each : List.Forall₂ Interchangeable first second)
    (groupable : ∀ e ∈ first, e.withCommands.Groupable) :
    rowResolution (first.map joined) = rowResolution (second.map joined) :=
  congrArg (List.mapM id) (map_resolution_of_alike (forall₂_alike each groupable))

theorem interchangeable_calls (each : List.Forall₂ Interchangeable first second) :
    Interchangeable (.call place first) (.call other second) :=
  interchangeable_call place other (forall_groupable each) fun groupable =>
    rowAlike_of_items (forall₂_alike each groupable)

theorem interchangeable_rows {make : Location → List Expr → Expr}
    (word : ∀ p row, (make p row).bareWord? = none)
    (groupable : ∀ p row,
      (make p row).withCommands.Groupable ↔ ∀ e ∈ row, e.withCommands.Groupable)
    (made : ∀ p row, (make p row).joined = make p (row.map joined))
    (resolved : ∀ p row, (make p row).resolution = (rowResolution row).map (make .nowhere))
    (each : List.Forall₂ Interchangeable first second) :
    Interchangeable (make place first) (make other second) := by
  refine ⟨by rw [word, word], ?_, fun all => ?_⟩
  · rw [groupable, groupable, forall_groupable each]
  · rw [made, made, resolved, resolved,
      rowResolution_of_interchangeable each ((groupable _ _).mp all)]

theorem interchangeable_arrays (each : List.Forall₂ Interchangeable first second) :
    Interchangeable (.array place first) (.array other second) := by
  refine interchangeable_rows place other (fun _ _ => rfl) (fun p row => ?_) (fun p row => ?_)
    resolution_array each
  · rw [withCommands, withCommandsAll_eq_map, groupable_array, List.forall_mem_map]
  · rw [joined, withCommands, withCommandsAll_eq_map, grouped, groupedAll_eq_map, List.map_map]
    rfl

theorem interchangeable_maps (each : List.Forall₂ Interchangeable first second) :
    Interchangeable (.map place first) (.map other second) := by
  refine interchangeable_rows place other (fun _ _ => rfl) (fun p row => ?_) (fun p row => ?_)
    resolution_map each
  · rw [withCommands, withCommandsAll_eq_map, groupable_map, List.forall_mem_map]
  · rw [joined, withCommands, withCommandsAll_eq_map, grouped, groupedAll_eq_map, List.map_map]
    rfl

end

/-! ## Heights -/

theorem heightAll_mapM {body items : List Expr}
    (each : ∀ e ∈ body, ∀ tree, e.withMembers = .ok tree → e.height ≤ tree.height)
    (done : body.mapM withMembers = .ok items) : heightAll body ≤ heightAll items := by
  induction body generalizing items with
  | nil => exact Nat.zero_le _
  | cons e rest ih =>
      rw [List.mapM_cons] at done
      obtain ⟨first, here, later⟩ := exists_of_bind_ok done
      obtain ⟨others, tail, made⟩ := exists_of_bind_ok later
      cases made
      have head := each e (by simp) first here
      have below := ih (fun x member => each x (by simp [member])) tail
      simp only [heightAll]
      omega

theorem heightAll_append (first second : List Expr) :
    heightAll (first ++ second) = max (heightAll first) (heightAll second) := by
  induction first with
  | nil => simp [heightAll]
  | cons e rest ih => simp [heightAll, ih, Nat.max_assoc]

theorem height_pos (e : Expr) : 1 ≤ e.height := by
  cases e <;> simp [height]

theorem height_le_of_withMembers {e tree : Expr} (done : e.withMembers = .ok tree) :
    e.height ≤ tree.height := by
  induction e using Expr.induction generalizing tree with
  | call place body ih =>
      rcases memberCall_or_other body with ⟨commandPlace, name, arguments, rfl, member⟩ | other
      · rw [withMembers_call_of_member member] at done
        obtain ⟨⟨function, path⟩, counted, later⟩ := exists_of_bind_ok done
        obtain ⟨inner, items, made⟩ := exists_of_bind_ok later
        cases made
        have below := heightAll_mapM (fun e inside _ => ih e (by simp [inside])) items
        have parts : heightAll inner = max (heightAll (inner.take 1)) (heightAll (inner.drop 1)) := by
          rw [← heightAll_append, List.take_append_drop]
        have filled : arguments ≠ [] := by
          rintro rfl
          cases counted
        obtain ⟨argument, inside⟩ := List.exists_mem_of_ne_nil _ filled
        have some := Nat.le_trans argument.height_pos (height_le_of_mem inside)
        simp only [height, heightAll_append, heightAll]
        omega
      · rw [withMembers_call other] at done
        obtain ⟨inner, items, made⟩ := exists_of_bind_ok done
        cases made
        exact Nat.succ_le_succ (heightAll_mapM (fun e member _ => ih e member) items)
  | array place body ih =>
      rw [withMembers, withMembersAll_eq_mapM] at done
      obtain ⟨inner, items, made⟩ := exists_of_bind_ok done
      cases made
      exact Nat.succ_le_succ (heightAll_mapM (fun e member _ => ih e member) items)
  | map place body ih =>
      rw [withMembers, withMembersAll_eq_mapM] at done
      obtain ⟨inner, items, made⟩ := exists_of_bind_ok done
      cases made
      exact Nat.succ_le_succ (heightAll_mapM (fun e member _ => ih e member) items)
  | _ => exact height_pos tree

/-! ## The statement -/

/-- What all passes make of a tree follows from what the pass over dotted names does. -/
theorem desugar_placeless (e : Expr) [Decidable e.withCommands.Groupable] :
    e.desugar.toOption.map placeless =
      if e.withCommands.Groupable then
        e.joined.resolution.bind fun tree =>
          if depthLimits.trees < tree.height then none else some tree.withSequences
      else none := by
  have follows := follows_withMembers e.joined
  have pipes := withPipes_toOption e.withCommands
  rw [Follows] at follows
  simp only [resolution, follows, desugar, passes, withPipesWithin, withMembersWithin, checkDepth]
  cases action : e.withCommands.withPipes with
  | error failure =>
      rw [action] at pipes
      split at pipes
      · cases pipes
      · rename_i empty
        rw [if_neg empty]
        rfl
  | ok tree =>
      rw [action] at pipes
      split at pipes
      · rename_i groupable
        obtain rfl : tree = e.joined := Option.some.inj pipes
        rw [if_pos groupable]
        simp only [bind, Except.bind]
        cases members : e.joined.withMembers with
        | error failure =>
            by_cases high : depthLimits.trees < e.joined.height <;>
              simp [Except.toOption, high, members]
        | ok read =>
            -- Both passes check the depth, and the later check includes the earlier one.
            have lower := height_le_of_withMembers members
            by_cases deep : depthLimits.trees < read.height
            · by_cases high : depthLimits.trees < e.joined.height <;>
                simp [Except.toOption, high, members, deep, height_placeless]
            · have low : ¬depthLimits.trees < e.joined.height := by omega
              simp [Except.toOption, low, members, deep, height_placeless,
                withSequences_placeless, pure, Except.pure]
      · cases pipes

theorem desugar_of_interchangeable {a b : Expr} (alike : Interchangeable a b) :
    a.desugar.toOption.map placeless = b.desugar.toOption.map placeless := by
  classical
  rw [desugar_placeless, desugar_placeless]
  by_cases groupable : a.withCommands.Groupable
  · rw [if_pos groupable, if_pos (alike.groupable.mp groupable), alike.same groupable]
  · rw [if_neg groupable, if_neg (alike.groupable.not.mp groupable)]

/-! ## Trees that the passes accept -/

/-- The passes accept a tree but for its depth. -/
structure Resolves (e : Expr) : Prop where
  groupable : e.withCommands.Groupable
  resolved : ∃ tree, e.joined.resolution = some tree

theorem exists_resolution {e : Expr} :
    (∃ tree, e.resolution = some tree) ↔ ∃ tree, e.withMembers = .ok tree := by
  have follows := follows_withMembers e
  rw [Follows] at follows
  rw [resolution, follows]
  cases e.withMembers <;> simp [Except.toOption]

theorem resolves_of_desugar {e tree : Expr} (done : e.desugar = .ok tree) : e.Resolves := by
  obtain ⟨piped, read, pipes, members, -⟩ := stages_of_desugar done
  have outcome := pipesOutcome_withPipes e.withCommands
  rw [pipes] at outcome
  obtain ⟨groupable, rfl⟩ := outcome
  exact ⟨groupable, exists_resolution.mpr ⟨read, members⟩⟩

theorem Resolves.of_interchangeable {a b : Expr} (resolves : a.Resolves)
    (alike : Interchangeable a b) : b.Resolves :=
  ⟨alike.groupable.mp resolves.groupable, alike.same resolves.groupable ▸ resolves.resolved⟩

theorem Resolves.desugar {e : Expr} (resolves : e.Resolves) :
    (∃ tree, e.desugar = .ok tree) ∨ e.desugar = .error .tooDeep := by
  obtain ⟨groupable, resolved⟩ := resolves
  obtain ⟨read, members⟩ := exists_resolution.mp resolved
  have pipes : e.withCommands.withPipes = .ok e.joined := by
    have outcome := pipesOutcome_withPipes e.withCommands
    cases action : e.withCommands.withPipes with
    | error failure => rw [action] at outcome; exact absurd groupable outcome.1
    | ok piped => rw [action] at outcome; rw [joined, ← outcome.2]
  simp only [Expr.desugar, passes, withPipesWithin, withMembersWithin, checkDepth, pipes, bind,
    Except.bind]
  by_cases high : depthLimits.trees < e.joined.height
  · exact .inr (by simp [high])
  · by_cases deep : depthLimits.trees < read.height
    · exact .inr (by simp [high, members, deep])
    · exact .inl ⟨read.withSequences, by simp [high, members, deep, pure, Except.pure]⟩

end ShellLisp.Expr
