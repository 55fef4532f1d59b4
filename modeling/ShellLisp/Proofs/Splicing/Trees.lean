import Mathlib.Data.List.Basic
import ShellLisp.Proofs.Reading.Passes

/-!
# Spliced trees

How a tree before the last pass and the tree behind it are alike: node by node, except that the
arguments of an inner sequence may stand in its place. A sequence without arguments disappears that
way. When it was the last argument, the value of the whole sequence is not its null any more, so
that a tree keeps its meaning only where nothing else comes before such an argument.
-/

namespace ShellLisp.Expr

/-- Arguments of a sequence beside the same arguments with inner sequences spliced in. What is last
on one side is last on the other, unless all that is left out is null. -/
inductive SplicedRow (item : Expr → Expr → Prop) : List Expr → List Expr → Prop
  | nil : SplicedRow item [] []
  | keep {e e' : Expr} {rest rest' : List Expr} (same : item e e')
      (row : SplicedRow item rest rest') (last : rest' = [] → rest = []) :
      SplicedRow item (e :: rest) (e' :: rest')
  | inner {place commandPlace : Location} {arguments arguments' rest rest' : List Expr}
      (inside : SplicedRow item arguments arguments') (row : SplicedRow item rest rest')
      (last : rest' = [] → arguments' = [] ∨ rest = []) :
      SplicedRow item (.call place (.command commandPlace sequenceName :: arguments) :: rest)
        (arguments' ++ rest')

/-- A tree beside the same tree with inner sequences spliced. -/
inductive Spliced : Expr → Expr → Prop
  | refl (e : Expr) : Spliced e e
  | call {place : Location} {body body' : List Expr} (items : List.Forall₂ Spliced body body') :
      Spliced (.call place body) (.call place body')
  | array {place : Location} {body body' : List Expr} (items : List.Forall₂ Spliced body body') :
      Spliced (.array place body) (.array place body')
  | map {place : Location} {body body' : List Expr} (items : List.Forall₂ Spliced body body') :
      Spliced (.map place body) (.map place body')
  | sequence {place commandPlace : Location} {arguments arguments' : List Expr}
      (row : SplicedRow Spliced arguments arguments') :
      Spliced (.call place (.command commandPlace sequenceName :: arguments))
        (.call place (.command commandPlace sequenceName :: arguments'))

theorem SplicedRow.eq_nil {item : Expr → Expr → Prop} {row : List Expr}
    (empty : SplicedRow item [] row) : row = [] := by
  cases empty
  rfl

/-! ## What the last pass makes of a tree -/

def Hollow (e : Expr) : Prop := e.withSequences.sequence? = some []

/-- Of a row of arguments the last one is not hollow, unless all of them are. -/
def RowKeepsLast (row : List Expr) : Prop :=
  ∀ last, row.getLast? = some last → last.Hollow → ∀ e ∈ row, e.Hollow

/-- Splicing the arguments of the node does not lose the last of them. -/
def KeepsLast (node : Expr) : Prop := ∀ arguments, node.sequence? = some arguments →
  RowKeepsLast arguments

theorem sequence?_withSequences_of_some {e : Expr} {arguments : List Expr}
    (found : e.sequence? = some arguments) :
    e.withSequences.sequence? = some (splice (arguments.map withSequences)) := by
  obtain ⟨place, commandPlace, rfl⟩ := eq_call_of_sequence? found
  rw [withSequences_sequence]
  simp [sequence?]

theorem splice_cons (e : Expr) (rest : List Expr) :
    splice (e :: rest) = e.sequence?.getD [e] ++ splice rest := by
  simp [splice]

theorem splice_map_eq_nil {row : List Expr} (nothing : splice (row.map withSequences) = []) :
    ∀ e ∈ row, e.Hollow := by
  intro e member
  have empty : e.withSequences.sequence?.getD [e.withSequences] = [] := by
    simp only [splice, List.flatMap_eq_nil_iff, List.mem_map, forall_exists_index, and_imp,
      forall_apply_eq_imp_iff₂] at nothing
    exact nothing e member
  cases found : e.withSequences.sequence? with
  | none => simp [found] at empty
  | some arguments => simpa [Hollow, found] using empty

theorem RowKeepsLast.tail {e : Expr} {rest : List Expr} (keeps : RowKeepsLast (e :: rest)) :
    RowKeepsLast rest := by
  intro last found hollow item member
  refine keeps last ?_ hollow item (List.mem_cons_of_mem _ member)
  rw [List.getLast?_cons, found]
  rfl

theorem RowKeepsLast.head {e : Expr} {rest : List Expr} (keeps : RowKeepsLast (e :: rest))
    (nothing : splice (rest.map withSequences) = []) (filled : rest ≠ []) : e.Hollow := by
  obtain ⟨last, found⟩ := List.getLast?_isSome.mpr filled |> Option.isSome_iff_exists.mp
  have hollow : last.Hollow := splice_map_eq_nil nothing last (List.mem_of_getLast? found)
  refine keeps last ?_ hollow e List.mem_cons_self
  rw [List.getLast?_cons, found]
  rfl

/-- The statement for the arguments of a sequence, from that for each argument and, where one is a
sequence, for its own arguments. -/
theorem splicedRow_splice {row : List Expr} (keeps : RowKeepsLast row)
    (items : ∀ e ∈ row, Spliced e e.withSequences)
    (inner : ∀ e ∈ row, ∀ arguments, e.sequence? = some arguments →
      SplicedRow Spliced arguments (splice (arguments.map withSequences))) :
    SplicedRow Spliced row (splice (row.map withSequences)) := by
  induction row with
  | nil => exact .nil
  | cons e rest ih =>
      have others := ih keeps.tail (fun x member => items x (List.mem_cons_of_mem _ member))
        fun x member => inner x (List.mem_cons_of_mem _ member)
      rw [List.map_cons, splice_cons]
      cases found : e.sequence? with
      | none =>
          have plain := sequence?_withSequences found
          rw [plain]
          refine .keep (items e List.mem_cons_self) others fun nothing => ?_
          by_contra filled
          have hollow := keeps.head nothing filled
          rw [Hollow, plain] at hollow
          cases hollow
      | some arguments =>
          have inside := inner e List.mem_cons_self arguments found
          have left := sequence?_withSequences_of_some found
          obtain ⟨place, commandPlace, rfl⟩ := eq_call_of_sequence? found
          rw [left]
          refine .inner inside others fun nothing => ?_
          by_cases filled : rest = []
          · exact .inr filled
          · have hollow := keeps.head nothing filled
            rw [Hollow, left] at hollow
            exact .inl (Option.some.inj hollow)

theorem forall₂_spliced {body : List Expr} (items : ∀ e ∈ body, Spliced e e.withSequences) :
    List.Forall₂ Spliced body (body.map withSequences) :=
  List.forall₂_map_right_iff.mpr (List.forall₂_same.mpr items)

theorem spliced_withSequences {e : Expr} (keeps : e.Everywhere KeepsLast) :
    Spliced e e.withSequences := by
  suffices both : Spliced e e.withSequences ∧ ∀ arguments, e.sequence? = some arguments →
      SplicedRow Spliced arguments (splice (arguments.map withSequences)) from both.1
  induction e using Expr.induction with
  | call place body ih =>
      obtain ⟨node, below⟩ := everywhere_call.mp keeps
      have items (e : Expr) (member : e ∈ body) := ih e member (below e member)
      cases found : (Expr.call place body).sequence? with
      | none =>
          rw [withSequences_call found]
          exact ⟨.call (forall₂_spliced fun e member => (items e member).1), by rintro _ ⟨⟩⟩
      | some arguments =>
          obtain ⟨_, commandPlace, same⟩ := eq_call_of_sequence? found
          cases same
          have row : SplicedRow Spliced arguments (splice (arguments.map withSequences)) :=
            splicedRow_splice (node arguments found)
              (fun e member => (items e (List.mem_cons_of_mem _ member)).1)
              fun e member => (items e (List.mem_cons_of_mem _ member)).2
          rw [withSequences_sequence]
          refine ⟨.sequence row, fun given same => ?_⟩
          cases same
          exact row
  | array place body ih =>
      have below := (everywhere_array.mp keeps).2
      rw [withSequences, withSequencesAll_eq_map]
      exact ⟨.array (forall₂_spliced fun e member => (ih e member (below e member)).1),
        by rintro _ ⟨⟩⟩
  | map place body ih =>
      have below := (everywhere_map.mp keeps).2
      rw [withSequences, withSequencesAll_eq_map]
      exact ⟨.map (forall₂_spliced fun e member => (ih e member (below e member)).1),
        by rintro _ ⟨⟩⟩
  | value | command | reference => exact ⟨.refl _, by rintro _ ⟨⟩⟩

end ShellLisp.Expr
