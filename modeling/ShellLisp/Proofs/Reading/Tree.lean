import ShellLisp.Expr.Reading

/-!
# Trees

Induction over expressions, the nodes of a tree, and the passes as maps over the items of a form.
-/

namespace ShellLisp.Expr

theorem induction {motive : Expr → Prop}
    (call : ∀ place body, (∀ e ∈ body, motive e) → motive (.call place body))
    (array : ∀ place body, (∀ e ∈ body, motive e) → motive (.array place body))
    (map : ∀ place body, (∀ e ∈ body, motive e) → motive (.map place body))
    (value : ∀ place literal, motive (.value place literal))
    (command : ∀ place name, motive (.command place name))
    (reference : ∀ place name, motive (.variable place name)) : ∀ e, motive e
  | .call place body => call place body fun e member =>
      have := size_le_sizeAll member
      induction call array map value command reference e
  | .array place body => array place body fun e member =>
      have := size_le_sizeAll member
      induction call array map value command reference e
  | .map place body => map place body fun e member =>
      have := size_le_sizeAll member
      induction call array map value command reference e
  | .value place literal => value place literal
  | .command place name => command place name
  | .variable place name => reference place name
termination_by e => e.size
decreasing_by all_goals simp only [size]; omega

/-! ## Nodes -/

mutual

/-- The nodes of a tree, each before those below it. -/
def nodes : Expr → List Expr
  | .call place body => .call place body :: nodesAll body
  | .array place body => .array place body :: nodesAll body
  | .map place body => .map place body :: nodesAll body
  | leaf => [leaf]

def nodesAll : List Expr → List Expr
  | [] => []
  | e :: rest => e.nodes ++ nodesAll rest

end

theorem mem_nodesAll {node : Expr} {body : List Expr} :
    node ∈ nodesAll body ↔ ∃ e ∈ body, node ∈ e.nodes := by
  induction body with
  | nil => simp [nodesAll]
  | cons e rest ih => simp [nodesAll, ih]

theorem self_mem_nodes (e : Expr) : e ∈ e.nodes := by
  cases e <;> simp [nodes]

theorem mem_nodes_call {node : Expr} {place : Location} {body : List Expr} :
    node ∈ (Expr.call place body).nodes ↔
      node = .call place body ∨ ∃ e ∈ body, node ∈ e.nodes := by
  simp [nodes, mem_nodesAll]

theorem mem_nodes_array {node : Expr} {place : Location} {body : List Expr} :
    node ∈ (Expr.array place body).nodes ↔
      node = .array place body ∨ ∃ e ∈ body, node ∈ e.nodes := by
  simp [nodes, mem_nodesAll]

theorem mem_nodes_map {node : Expr} {place : Location} {body : List Expr} :
    node ∈ (Expr.map place body).nodes ↔
      node = .map place body ∨ ∃ e ∈ body, node ∈ e.nodes := by
  simp [nodes, mem_nodesAll]

/-! ## Heads -/

/-- An expression as the head of a call: a word names a command. -/
def asHead : Expr → Expr
  | .value place (.word text) => .command place text
  | e => e

theorem markHead_cons (e : Expr) (rest : List Expr) : markHead (e :: rest) = e.asHead :: rest := by
  cases e with
  | value place literal => cases literal <;> rfl
  | _ => rfl

theorem place_asHead (e : Expr) : e.asHead.place = e.place := by
  unfold asHead
  split <;> rfl

theorem operator?_asHead (e : Expr) : e.asHead.operator? = e.operator? := by
  unfold asHead
  split <;> rfl

theorem isBareWord_asHead (e : Expr) : e.asHead.isBareWord = e.isBareWord := by
  unfold asHead
  split <;> rfl

theorem asHead_asHead (e : Expr) : e.asHead.asHead = e.asHead := by
  cases e with
  | value place literal => cases literal <;> rfl
  | _ => rfl

theorem asHead_of_not_bareWord {e : Expr} (long : e.isBareWord = false) : e.asHead = e := by
  unfold asHead
  split
  · cases long
  · rfl

/-! ## The passes -/

theorem withMembersAll_eq_mapM (body : List Expr) :
    withMembersAll body = body.mapM withMembers := by
  induction body with
  | nil => rfl
  | cons e rest ih => rw [withMembersAll, ih, List.mapM_cons]

theorem withSequencesAll_eq_map (body : List Expr) :
    withSequencesAll body = body.map withSequences := by
  induction body with
  | nil => rfl
  | cons e rest ih => simp [withSequencesAll, ih]

theorem withPipes_call (place : Location) (body : List Expr) :
    withPipes (.call place body) = (do
      let items ← regroup body
      let inner ← items.mapM withPipes
      return .call place inner) := by
  rw [withPipes]
  split
  · rename_i failure action
    simp [action, bind, Except.bind]
  · rename_i items action
    simp [action, bind, Except.bind]

theorem withPipes_array (place : Location) (body : List Expr) :
    withPipes (.array place body) = (do
      let inner ← body.mapM withPipes
      return .array place inner) := by
  rw [withPipes]
  simp

theorem withPipes_map (place : Location) (body : List Expr) :
    withPipes (.map place body) = (do
      let inner ← body.mapM withPipes
      return .map place inner) := by
  rw [withPipes]
  simp

theorem withMembers_call_of_member {name : String} (member : isMemberCommand name = true)
    (place commandPlace : Location) (arguments : List Expr) :
    withMembers (.call place (.command commandPlace name :: arguments)) = (do
      let (function, path) ← memberItems place commandPlace name arguments
      let inner ← arguments.mapM withMembers
      return .call place (function ++ inner.take 1 ++ path ++ inner.drop 1)) := by
  rw [withMembers, withMembersAll_eq_mapM]
  simp [member]

theorem withMembers_call {body : List Expr}
    (other : ∀ place name, body.head? = some (.command place name) → isMemberCommand name = false)
    (place : Location) :
    withMembers (.call place body) = (do
      let inner ← body.mapM withMembers
      return .call place inner) := by
  cases body with
  | nil => rfl
  | cons head rest =>
      cases head with
      | command commandPlace name =>
          rw [withMembers, other commandPlace name rfl, withMembersAll_eq_mapM, List.mapM_cons]
          simp
      | _ => rw [withMembers, withMembersAll_eq_mapM]; simp

/-- The two kinds of calls that reading members tells apart. -/
theorem memberCall_or_other (body : List Expr) :
    (∃ commandPlace name arguments,
      body = .command commandPlace name :: arguments ∧ isMemberCommand name = true) ∨
    ∀ place name, body.head? = some (.command place name) → isMemberCommand name = false := by
  by_cases found : ∃ commandPlace name arguments,
      body = .command commandPlace name :: arguments ∧ isMemberCommand name = true
  · exact .inl found
  · refine .inr fun place name head => ?_
    obtain ⟨arguments, rfl⟩ := List.head?_eq_some_iff.mp head
    exact Bool.eq_false_iff.mpr fun member => found ⟨place, name, arguments, rfl, member⟩

theorem withSequences_sequence (place commandPlace : Location) (arguments : List Expr) :
    withSequences (.call place (.command commandPlace sequenceName :: arguments)) =
      .call place (.command commandPlace sequenceName :: splice (arguments.map withSequences)) := by
  rw [withSequences, withSequencesAll_eq_map, if_pos rfl]

theorem withSequences_call {place : Location} {body : List Expr}
    (other : (Expr.call place body).sequence? = none) :
    withSequences (.call place body) = .call place (body.map withSequences) := by
  cases body with
  | nil => rfl
  | cons head rest =>
      cases head with
      | command commandPlace name =>
          have different : name ≠ sequenceName := by
            rintro rfl
            simp [sequence?] at other
          simp [withSequences, different, withSequencesAll_eq_map]
      | _ => rw [withSequences, withSequencesAll_eq_map]; simp

end ShellLisp.Expr
