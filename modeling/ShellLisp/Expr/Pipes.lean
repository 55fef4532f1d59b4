import ShellLisp.Expr.Commands
import ShellLisp.Expr.Parser

/-!
# Pipes

The second pass over a tree: a call with operator words among its items is split at the last of
them. `|` makes what stands before it the first argument of what follows, `|>` the last argument,
and `;` evaluates both in order. What stands before the operator becomes a call of its own and is
split in turn, so operators group to the left. The main statement is that a split leaves no item of
the call larger than the call, which is why the pass ends.
-/

namespace ShellLisp.Expr

def operator? (e : Expr) : Option String := e.bareWord?.filter operators.contains

structure Split where
  left : List Expr
  place : Location
  operator : String
  right : List Expr

def splitLast? : List Expr → Option Split
  | [] => none
  | e :: rest =>
      match splitLast? rest with
      | some split => some { split with left := e :: split.left }
      | none => e.operator?.map (⟨[], e.place, ·, rest⟩)

def group (items : List Expr) (place : Location) : Expr :=
  let grouped := Expr.call ((items.head?.map Expr.place).getD place) (markHead items)
  match items with
  | [e] => if e.isBareWord then grouped else e
  | _ => grouped

/-- The items of a call after it was split; both sides are known to have items. -/
def Split.items (split : Split) : List Expr :=
  let left := group split.left split.place
  if split.operator = ";" then
    [.command split.place sequenceName, left, group split.right split.place]
  else
    match split.right with
    | [] => [left]
    | target :: rest =>
        if split.operator = "|" then markHead (target :: left :: rest)
        else markHead (target :: (rest ++ [left]))

/-- The items of a call with its last operator, if any, rewritten. -/
def regroup (body : List Expr) : Except Failure (List Expr) :=
  match splitLast? body with
  | none => .ok body
  | some split =>
      if split.left.isEmpty then .error (.at split.place (.missingLeft split.operator))
      else if split.right.isEmpty then .error (.at split.place (.missingRight split.operator))
      else .ok split.items

theorem sizeAll_markHead (body : List Expr) : sizeAll (markHead body) = sizeAll body := by
  unfold markHead
  split
  · simp [sizeAll, size]
  · rfl

theorem size_group (items : List Expr) (place : Location) :
    (group items place).size ≤ sizeAll items + 1 := by
  unfold group
  split
  · split
    · simp [size, sizeAll_markHead]
    · simp [sizeAll]
  · simp [size, sizeAll_markHead]

theorem size_operator {e : Expr} {name : String} (operator : e.operator? = some name) :
    e.size = 1 := by
  cases e <;> simp [operator?, bareWord?] at operator <;> simp [size]

theorem sizeAll_splitLast? {body : List Expr} {split : Split}
    (found : splitLast? body = some split) :
    sizeAll body = sizeAll split.left + 1 + sizeAll split.right := by
  induction body generalizing split with
  | nil => simp [splitLast?] at found
  | cons e rest ih =>
      unfold splitLast? at found
      split at found
      · rename_i later tail
        cases found
        have := ih tail
        simp only [sizeAll]
        omega
      · cases action : e.operator? with
        | none => simp [action] at found
        | some name =>
            simp only [action, Option.map_some, Option.some.injEq] at found
            subst found
            simp only [sizeAll, size_operator action]

theorem size_mem_items {split : Split} {e : Expr} (member : e ∈ split.items) :
    e.size ≤ sizeAll split.left + 1 + sizeAll split.right := by
  have left := size_group split.left split.place
  have right := size_group split.right split.place
  unfold Split.items at member
  simp only at member
  split at member
  · simp only [List.mem_cons, List.not_mem_nil, or_false] at member
    rcases member with rfl | rfl | rfl
    · simp only [size]; omega
    · omega
    · omega
  · split at member
    · simp only [List.mem_singleton] at member
      subst member
      omega
    · rename_i target rest shape
      have parts : sizeAll split.right = target.size + sizeAll rest := by rw [shape, sizeAll]
      have positive := target.size_pos
      have bound : ∀ items : List Expr, (∀ i ∈ items, i = target ∨ i ∈ rest ∨
          i = group split.left split.place) → e ∈ markHead items →
          e.size ≤ sizeAll split.left + 1 + sizeAll split.right := by
        intro items among inside
        have inItems : e.size = 1 ∨ e ∈ items := by
          unfold markHead at inside
          split at inside
          · rcases List.mem_cons.mp inside with rfl | later
            · exact Or.inl rfl
            · exact Or.inr (List.mem_cons_of_mem _ later)
          · exact Or.inr inside
        rcases inItems with one | inside
        · omega
        · rcases among e inside with rfl | later | rfl
          · omega
          · have := size_le_sizeAll later
            omega
          · omega
      split at member
      · exact bound _ (by simp only [List.mem_cons]; grind) member
      · exact bound _ (by simp only [List.mem_cons, List.mem_append]; grind) member

theorem size_mem_regroup (place : Location) {body items : List Expr}
    (done : regroup body = .ok items) {e : Expr} (member : e ∈ items) :
    e.size < (Expr.call place body).size := by
  unfold regroup at done
  rw [size]
  split at done
  · cases done
    have := size_le_sizeAll member
    omega
  · rename_i split found
    split at done
    · contradiction
    · split at done
      · contradiction
      · cases done
        have := size_mem_items member
        have := sizeAll_splitLast? found
        omega

/-- The tree with every operator rewritten, the outermost call first. -/
def withPipes : Expr → Except Failure Expr
  | .call place body =>
      match done : regroup body with
      | .error failure => .error failure
      | .ok items => do
          let inner ← items.attach.mapM fun ⟨e, member⟩ =>
            have := size_mem_regroup place done member
            e.withPipes
          return .call place inner
  | .array place body => do
      let inner ← body.attach.mapM fun ⟨e, member⟩ =>
        have := size_le_sizeAll member
        e.withPipes
      return .array place inner
  | .map place body => do
      let inner ← body.attach.mapM fun ⟨e, member⟩ =>
        have := size_le_sizeAll member
        e.withPipes
      return .map place inner
  | leaf => .ok leaf
termination_by e => e.size
decreasing_by all_goals simp only [size] at *; omega

end ShellLisp.Expr
