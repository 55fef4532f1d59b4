import ShellLisp.Proofs.Reading.Grouping

/-!
# The normal form of programs

What the four passes leave behind, said of each node of a tree by itself. A tree in normal form is
left as it is by all of them.
-/

namespace ShellLisp.Expr

/-! ## Properties of all nodes -/

/-- Every node of a tree has a property. -/
def Everywhere (p : Expr → Prop) (e : Expr) : Prop := ∀ node ∈ e.nodes, p node

theorem everywhere_call {p : Expr → Prop} {place : Location} {body : List Expr} :
    (Expr.call place body).Everywhere p ↔ p (.call place body) ∧ ∀ e ∈ body, e.Everywhere p := by
  simp only [Everywhere, mem_nodes_call]
  grind

theorem everywhere_array {p : Expr → Prop} {place : Location} {body : List Expr} :
    (Expr.array place body).Everywhere p ↔ p (.array place body) ∧ ∀ e ∈ body, e.Everywhere p := by
  simp only [Everywhere, mem_nodes_array]
  grind

theorem everywhere_map {p : Expr → Prop} {place : Location} {body : List Expr} :
    (Expr.map place body).Everywhere p ↔ p (.map place body) ∧ ∀ e ∈ body, e.Everywhere p := by
  simp only [Everywhere, mem_nodes_map]
  grind

theorem everywhere_command {p : Expr → Prop} {place : Location} {name : String} :
    (Expr.command place name).Everywhere p ↔ p (.command place name) := by
  simp [Everywhere, nodes]

theorem everywhere_variable {p : Expr → Prop} {place : Location} {name : String} :
    (Expr.variable place name).Everywhere p ↔ p (.variable place name) := by
  simp [Everywhere, nodes]

theorem everywhere_value {p : Expr → Prop} {place : Location} {literal : Literal} :
    (Expr.value place literal).Everywhere p ↔ p (.value place literal) := by
  simp [Everywhere, nodes]

/-! ## The normal form -/

/-- Command leaves are found only at the heads of calls. -/
def CommandsAtHeads : Expr → Prop
  | .call _ body => ∀ item ∈ body.tail, item.kind ≠ .command
  | .array _ body => ∀ item ∈ body, item.kind ≠ .command
  | .map _ body => ∀ item ∈ body, item.kind ≠ .command
  | _ => True

/-- A word at the head of a call is a command. -/
def HeadMarked : Expr → Prop
  | .call _ body => ∀ head ∈ body.head?, head.isBareWord = true → head.kind = .command
  | _ => True

/-- No item of a call is an operator word. -/
def OperatorFree : Expr → Prop
  | .call _ body => ∀ item ∈ body, item.operator? = none
  | _ => True

/-- A variable has no dot; a command with a dot is a path or a program, and a path if it starts with
the dot. -/
def NameResolved : Expr → Prop
  | .variable _ name => isDotted name = false
  | .command _ name => isMemberCommand name = false ∧ (isDotted name = true → isProgram name = true)
  | _ => True

/-- A sequence has no sequence as an argument. -/
def SequenceFlat (e : Expr) : Prop :=
  ∀ arguments, e.sequence? = some arguments → ∀ item ∈ arguments, item.sequence? = none

theorem sequenceFlat_of_none {e : Expr} (none : e.sequence? = none) : e.SequenceFlat := by
  intro arguments found
  rw [none] at found
  cases found

/-- A node as the passes leave it. -/
structure NodeNormal (node : Expr) : Prop where
  commands : node.CommandsAtHeads
  head : node.HeadMarked
  operators : node.OperatorFree
  names : node.NameResolved
  sequences : node.SequenceFlat

/-- A tree in the form that is evaluated. -/
def IsNormal (e : Expr) : Prop := e.kind ≠ .command ∧ e.Everywhere NodeNormal

/-! ## A tree in normal form is left as it is -/

theorem map_eq_self {change : Expr → Expr} {body : List Expr}
    (same : ∀ e ∈ body, change e = e) : body.map change = body :=
  (List.map_congr_left same).trans (List.map_id _)

theorem mapM_eq_self {change : Expr → Except Failure Expr} {body : List Expr}
    (same : ∀ e ∈ body, change e = .ok e) : body.mapM change = .ok body := by
  induction body with
  | nil => rfl
  | cons e rest ih =>
      rw [List.mapM_cons, same e (by simp), ih fun x member => same x (by simp [member])]
      rfl

theorem asHead_of_marked {place : Location} {head : Expr} {rest : List Expr}
    (marked : (Expr.call place (head :: rest)).HeadMarked) : head.asHead = head := by
  cases word : head.isBareWord with
  | false => exact asHead_of_not_bareWord word
  | true =>
      have command := marked head rfl word
      cases head <;> first | rfl | cases command

theorem withCommands_of_normal {e : Expr} (normal : e.Everywhere NodeNormal) :
    e.withCommands = e := by
  induction e using Expr.induction with
  | call place body ih =>
      obtain ⟨node, items⟩ := everywhere_call.mp normal
      rw [withCommands, withCommandsAll_eq_map,
        map_eq_self fun e member => ih e member (items e member)]
      cases body with
      | nil => rfl
      | cons head rest => rw [markHead_cons, asHead_of_marked node.head]
  | array place body ih =>
      obtain ⟨-, items⟩ := everywhere_array.mp normal
      rw [withCommands, withCommandsAll_eq_map,
        map_eq_self fun e member => ih e member (items e member)]
  | map place body ih =>
      obtain ⟨-, items⟩ := everywhere_map.mp normal
      rw [withCommands, withCommandsAll_eq_map,
        map_eq_self fun e member => ih e member (items e member)]
  | value place literal => rfl
  | command place name => rfl
  | reference place name => rfl

theorem splitLast?_eq_none {body : List Expr} (free : ∀ item ∈ body, item.operator? = none) :
    splitLast? body = none := by
  induction body with
  | nil => rfl
  | cons e rest ih =>
      rw [splitLast?, ih fun item member => free item (by simp [member]), free e (by simp)]
      rfl

theorem withPipes_of_normal {e : Expr} (normal : e.Everywhere NodeNormal) :
    e.withPipes = .ok e := by
  induction e using Expr.induction with
  | call place body ih =>
      obtain ⟨node, items⟩ := everywhere_call.mp normal
      have whole : regroup body = .ok body := by
        rw [regroup, splitLast?_eq_none node.operators]
      rw [withPipes_call, whole]
      simp only [bind, Except.bind]
      rw [mapM_eq_self fun e member => ih e member (items e member)]
      rfl
  | array place body ih =>
      obtain ⟨-, items⟩ := everywhere_array.mp normal
      rw [withPipes_array, mapM_eq_self fun e member => ih e member (items e member)]
      rfl
  | map place body ih =>
      obtain ⟨-, items⟩ := everywhere_map.mp normal
      rw [withPipes_map, mapM_eq_self fun e member => ih e member (items e member)]
      rfl
  | value place literal => simp only [withPipes]
  | command place name => simp only [withPipes]
  | reference place name => simp only [withPipes]

theorem withMembers_command_of_resolved {place : Location} {name : String}
    (resolved : (Expr.command place name).NameResolved) :
    (Expr.command place name).withMembers = .ok (.command place name) := by
  rw [withMembers]
  cases dotted : isDotted name with
  | false => rfl
  | true => simp [resolved.2 dotted]

theorem withMembers_of_normal {e : Expr} (normal : e.Everywhere NodeNormal) :
    e.withMembers = .ok e := by
  induction e using Expr.induction with
  | call place body ih =>
      obtain ⟨node, items⟩ := everywhere_call.mp normal
      have plain : ∀ place name, body.head? = some (.command place name) →
          isMemberCommand name = false := by
        intro p name head
        have inside := items _ (List.mem_of_mem_head? head)
        exact (everywhere_command.mp inside).names.1
      rw [withMembers_call plain, mapM_eq_self fun e member => ih e member (items e member)]
      rfl
  | array place body ih =>
      obtain ⟨-, items⟩ := everywhere_array.mp normal
      rw [withMembers, withMembersAll_eq_mapM,
        mapM_eq_self fun e member => ih e member (items e member)]
      rfl
  | map place body ih =>
      obtain ⟨-, items⟩ := everywhere_map.mp normal
      rw [withMembers, withMembersAll_eq_mapM,
        mapM_eq_self fun e member => ih e member (items e member)]
      rfl
  | value place literal => rfl
  | command place name =>
      exact withMembers_command_of_resolved (everywhere_command.mp normal).names
  | reference place name =>
      have plain : isDotted name = false := (everywhere_variable.mp normal).names
      rw [withMembers, plain]
      rfl

theorem splice_of_flat {arguments : List Expr}
    (flat : ∀ item ∈ arguments, item.sequence? = none) : splice arguments = arguments := by
  induction arguments with
  | nil => rfl
  | cons e rest ih =>
      have later := ih fun item member => flat item (by simp [member])
      rw [splice] at later ⊢
      rw [List.flatMap_cons, later, flat e (by simp)]
      rfl

theorem eq_call_of_sequence? {e : Expr} {arguments : List Expr}
    (found : e.sequence? = some arguments) :
    ∃ place commandPlace, e = .call place (.command commandPlace sequenceName :: arguments) := by
  unfold sequence? at found
  split at found
  · split at found
    · rename_i same
      cases found
      exact ⟨_, _, by rw [same]⟩
    · cases found
  · cases found

theorem withSequences_of_normal {e : Expr} (normal : e.Everywhere NodeNormal) :
    e.withSequences = e := by
  induction e using Expr.induction with
  | call place body ih =>
      obtain ⟨node, items⟩ := everywhere_call.mp normal
      have same := map_eq_self fun e member => ih e member (items e member)
      cases found : (Expr.call place body).sequence? with
      | none => rw [withSequences_call found, same]
      | some arguments =>
          obtain ⟨p, commandPlace, whole⟩ := eq_call_of_sequence? found
          cases whole
          rw [List.map_cons, List.cons.injEq] at same
          rw [withSequences_sequence, same.2, splice_of_flat (node.sequences _ found)]
  | array place body ih =>
      obtain ⟨-, items⟩ := everywhere_array.mp normal
      rw [withSequences, withSequencesAll_eq_map,
        map_eq_self fun e member => ih e member (items e member)]
  | map place body ih =>
      obtain ⟨-, items⟩ := everywhere_map.mp normal
      rw [withSequences, withSequencesAll_eq_map,
        map_eq_self fun e member => ih e member (items e member)]
  | value place literal => rfl
  | command place name => rfl
  | reference place name => rfl

theorem desugar_of_normal {e : Expr} (normal : e.Everywhere NodeNormal)
    (shallow : e.height ≤ depthLimits.trees) : e.desugar = .ok e := by
  have fits : e.checkDepth depthLimits.trees = .ok e := by
    rw [checkDepth, if_neg (by omega)]
  simp only [desugar, passes, withPipesWithin, withMembersWithin, withCommands_of_normal normal,
    withPipes_of_normal normal, bind, Except.bind, fits, withMembers_of_normal normal,
    withSequences_of_normal normal, pure, Except.pure]

end ShellLisp.Expr
