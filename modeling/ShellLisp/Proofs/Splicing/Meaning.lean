import ShellLisp.Process.Program
import ShellLisp.Proofs.Splicing.Evaluation
import ShellLisp.Session.Start

/-!
# Splicing keeps the meaning

Evaluating a tree before and after the last pass has the same result and the same effects, as long
as the name of sequences means the library's function wherever a sequence is evaluated, and no
sequence ends in an argument that the pass drops. What the pass saves is depth: where the tree
before it goes too deep, the tree after it may not. Only evaluations that are followed are compared: the
body of a function is not the same to look at, and the values of arguments are let go of at other
moments.
-/

namespace ShellLisp
open ShellLisp.Expr (Spliced SplicedRow sequenceName)

/-! ## Evaluations in which the name of sequences keeps its meaning -/

def Store.knowsSequences (store : Store) (scope : Nat) : Bool :=
  match store.scopes.lookup? scope sequenceName with
  | some (.library ref) => store.functionAt? ref == some (.core .sequence)
  | _ => false

/-- Gives up at a sequence whose name does not mean the library's function. -/
def Eval.checkSequence (e : Expr) (scope : Nat) : Eval Unit := do
  if ← Eval.ask fun store => e.sequence?.isNone || store.knowsSequences scope then return
  else throw .tooDeep

namespace Engine

/-- The engine that gives up at sequences that are not the library's. -/
def guarded (engine : Engine) : Engine :=
  { engine with
    interpret := fun e scope => do
      Eval.checkSequence e scope
      engine.interpret e scope }

/-- The engine of a depth, of which every level gives up at sequences that are not the library's. -/
def steady (patience : Nat) : Nat → Engine
  | 0 => exhausted patience
  | depth + 1 => guarded (deeper (steady patience depth))

end Engine

theorem Store.exists_of_knowsSequences {store : Store} {scope : Nat}
    (knows : store.knowsSequences scope = true) :
    ∃ ref, store.scopes.lookup? scope sequenceName = some (.library ref) ∧
      store.functionAt? ref = some (.core .sequence) := by
  unfold knowsSequences at knows
  split at knows
  · rename_i ref found
    exact ⟨ref, found, by simpa using knows⟩
  · cases knows

variable {place commandPlace : Location} {scope : Nat} {arguments arguments' : List Expr}
variable {e e' : Expr} {α β : Type}

theorem Eval.runOn_checkSequence (e : Expr) (scope : Nat) (session : Session) :
    (checkSequence e scope).runOn session =
      (if e.sequence?.isNone || session.store.knowsSequences scope then .ok ()
        else .error .tooDeep, session) := by
  show Eval.runOn session (if e.sequence?.isNone || session.store.knowsSequences scope then
    Pure.pure () else throw .tooDeep) = _
  split <;> rfl

theorem Mirrors.checked {like : Expr → Expr → Prop} {result : α → β → Prop} {first : Eval α}
    {second : Eval β} (mirrors : Mirrors like result first second) :
    Mirrors like result (do Eval.checkSequence e scope; first) second := by
  intro session other twins
  rw [Eval.runOn_bind, Eval.runOn_checkSequence]
  cases e.sequence?.isNone || session.store.knowsSequences scope with
  | true => exact mirrors session other twins
  | false => exact .gaveUp trivial

theorem Engine.interpret_steady (patience depth : Nat) (e : Expr) (scope : Nat) :
    (steady patience (depth + 1)).interpret e scope = (do
      Eval.checkSequence e scope
      Interpret.interpret (steady patience depth) e scope) := rfl

theorem Engine.runOn_steady {session : Session} (patience depth : Nat) (e : Expr)
    (knows : session.store.knowsSequences scope = true) :
    ((steady patience (depth + 1)).interpret e scope).runOn session =
      (Interpret.interpret (steady patience depth) e scope).runOn session := by
  rw [interpret_steady, Eval.runOn_bind, Eval.runOn_checkSequence, knows, Bool.or_true]
  rfl

theorem Engine.runOn_steady_of_unknown {session : Session} (patience depth : Nat)
    (unknown : session.store.knowsSequences scope = false) :
    ((steady patience (depth + 1)).interpret
        (.call place (.command commandPlace sequenceName :: arguments)) scope).runOn session =
      (.error .tooDeep, session) := by
  rw [interpret_steady, Eval.runOn_bind, Eval.runOn_checkSequence, unknown]
  rfl

/-! ## Sequences -/

theorem Apply.runOn_sequence (engine : Engine) {session : Session} {ref : Nat}
    (function : session.store.functionAt? ref = some (.core .sequence)) (values : List Value) :
    (apply engine (.library ref) values place).runOn session =
      (.ok (values.getLastD .null), session) := by
  obtain ⟨cell, there, same⟩ := Option.map_eq_some_iff.mp function
  rw [runOn_library there, same]
  rfl

def SameLast (arguments arguments' : List Expr) (found found' : List Value) : Prop :=
  found.getLastD .null = found'.getLastD .null ∧ found.length = arguments.length ∧
    found'.length = arguments'.length

/-- A sequence on one side beside the row of its spliced arguments on the other, from the statement
for the row of its arguments one level below. -/
theorem sequence_mirrors {patience depth : Nat} {second : Engine}
    (below : Mirrors Spliced (SameLast arguments arguments')
      (Interpret.values (Engine.steady patience depth) scope arguments)
      (Interpret.values second scope arguments')) :
    Mirrors Spliced (fun value found' => value = found'.getLastD .null ∧
        found'.length = arguments'.length ∧ 0 < depth)
      ((Engine.steady patience (depth + 1)).interpret
        (.call place (.command commandPlace sequenceName :: arguments)) scope)
      (Interpret.values second scope arguments') := by
  intro session other twins
  cases knows : session.store.knowsSequences scope with
  | false =>
      rw [Engine.runOn_steady_of_unknown patience depth knows]
      exact .gaveUp trivial
  | true =>
      obtain ⟨ref, bound, function⟩ := Store.exists_of_knowsSequences knows
      have ends := below session other twins
      rw [Engine.runOn_steady _ _ _ knows, Interpret.runOn_callNamed bound, Eval.runOn_bind]
      generalize (Interpret.values _ scope arguments).runOn session = end₁ at ends ⊢
      generalize (Interpret.values second scope arguments').runOn other = end₂ at ends ⊢
      cases ends with
      | gaveUp depth => exact .gaveUp depth
      | failed twins kept => exact .failed twins kept
      | returned same twins kept =>
          cases depth with
          | zero => exact .gaveUp trivial
          | succ depth =>
              have still := kept ref _ function
              show EndAlike _ _ _ (Eval.runOn _ (Apply.apply _ (.library ref) _ place)) _
              rw [Apply.runOn_sequence _ still]
              exact .returned ⟨same.1, same.2.2, depth.succ_pos⟩ twins kept

theorem getLastD_spliced {value : Value} {inner found found' : List Value}
    (same : value = inner.getLastD .null) (later : found.getLastD .null = found'.getLastD .null)
    (filled : found = [] → found' = []) (last : found' = [] → inner = [] ∨ found = []) :
    (value :: found).getLastD .null = (inner ++ found').getLastD .null := by
  cases found with
  | nil => simp [filled rfl, same]
  | cons w rest =>
      rw [List.getLastD_cons, List.getLastD_cons] at *
      cases found' with
      | nil =>
          obtain rfl := (last rfl).resolve_right (List.cons_ne_nil w rest)
          simpa using later
      | cons w' rest' => simpa [List.getLastD_eq_getLast?, List.getLast?_cons] using later

theorem sameLast_cons {inner rest rest' : List Expr} {value : Value}
    {first found found' : List Value} (others : SplicedRow Spliced rest rest')
    (last : rest' = [] → inner = [] ∨ rest = []) (same : value = first.getLastD .null)
    (length : first.length = inner.length) (later : SameLast rest rest' found found') :
    SameLast (e :: rest) (inner ++ rest') (value :: found) (first ++ found') := by
  have empty {values : List Value} {row : List Expr} (length : values.length = row.length) :
      values = [] ↔ row = [] := by
    rw [← List.length_eq_zero_iff, length, List.length_eq_zero_iff]
  obtain ⟨alike, width, width'⟩ := later
  -- Whichever row is empty, the value that counts as the last one is the same.
  refine ⟨getLastD_spliced same alike ?_ ?_, by simp [width], by simp [length, width']⟩
  · rw [empty width, empty width']
    rintro rfl
    exact others.eq_nil
  · rwa [empty width', empty length, empty width]

/-- The statement for a row of arguments, from that for single trees and, where one is a sequence,
for its own arguments one level below. -/
theorem values_mirrors {patience depth : Nat} {second : Engine}
    (trees : ∀ {e e'}, Spliced e e' → Mirrors Spliced Eq
      ((Engine.steady patience (depth + 1)).interpret e scope) (second.interpret e' scope))
    (below : ∀ {arguments arguments'}, SplicedRow Spliced arguments arguments' →
      Mirrors Spliced (SameLast arguments arguments')
        (Interpret.values (Engine.steady patience depth) scope arguments)
        (Interpret.values second scope arguments'))
    (row : SplicedRow Spliced arguments arguments') :
    Mirrors Spliced (SameLast arguments arguments')
      (Interpret.values (Engine.steady patience (depth + 1)) scope arguments)
      (Interpret.values second scope arguments') := by
  induction row with
  | nil => exact .pure ⟨rfl, rfl, rfl⟩
  | @keep e e' rest rest' spliced others last ih =>
      unfold Interpret.values
      rw [List.mapM_cons, List.mapM_cons]
      refine .bind (trees spliced) fun value => .bindAs ih fun found found' same => .pure ?_
      have width : [value].length = [e'].length := rfl
      exact sameLast_cons others (fun empty => .inr (last empty)) rfl width same
  | @inner place commandPlace arguments arguments' rest rest' inside others last _ ih =>
      unfold Interpret.values
      rw [List.mapM_cons, List.mapM_append]
      refine .bindAs (sequence_mirrors (below inside)) fun value first held => ?_
      refine .bindAs ih fun found found' same => .pure ?_
      exact sameLast_cons others last held.1 held.2.1 same

theorem spliced_sequence_mirrors {patience depth depth' : Nat} (enough : depth ≤ depth')
    (below : Mirrors Spliced (SameLast arguments arguments')
      (Interpret.values (Engine.steady patience depth) scope arguments)
      (Interpret.values (Engine.ofDepth patience depth') scope arguments')) :
    Mirrors Spliced Eq
      ((Engine.steady patience (depth + 1)).interpret
        (.call place (.command commandPlace sequenceName :: arguments)) scope)
      ((Engine.ofDepth patience (depth' + 1)).interpret
        (.call place (.command commandPlace sequenceName :: arguments')) scope) := by
  intro session other twins
  cases knows : session.store.knowsSequences scope with
  | false =>
      rw [Engine.runOn_steady_of_unknown patience depth knows]
      exact .gaveUp trivial
  | true =>
      obtain ⟨ref, bound, function⟩ := Store.exists_of_knowsSequences knows
      -- The sequence as it was has the value of its last argument, which is also the last one here.
      have mirrors : Mirrors Spliced _ ((Engine.steady patience (depth + 1)).interpret
          (.call place (.command commandPlace sequenceName :: arguments)) scope) _ :=
        sequence_mirrors below
      have ends := mirrors session other twins
      have bound' : other.store.scopes.lookup? scope sequenceName = some (.library ref) := by
        obtain ⟨bodies, rfl, -⟩ := twins
        exact bound
      rw [Engine.interpret_ofDepth, Interpret.runOn_callNamed bound', Eval.runOn_bind]
      generalize ((Engine.steady patience (depth + 1)).interpret _ scope).runOn session = end₁
        at ends ⊢
      generalize (Interpret.values _ scope arguments').runOn other = end₂ at ends ⊢
      cases ends with
      | gaveUp depth => exact .gaveUp depth
      | failed twins kept => exact .failed twins kept
      | @returned value found after last same twins kept =>
          obtain ⟨rfl, -, positive⟩ := same
          obtain ⟨further, rfl⟩ := Nat.exists_eq_succ_of_ne_zero (show depth' ≠ 0 by omega)
          have still : last.store.functionAt? ref = some (.core .sequence) := by
            obtain ⟨bodies, rfl, -⟩ := twins
            exact kept ref _ function
          show EndAlike _ _ _ _ (Eval.runOn _ (Apply.apply _ (.library ref) _ place))
          rw [Apply.runOn_sequence _ still]
          exact .returned rfl twins kept

/-! ## Every level of evaluation -/

theorem exhausted_coupled (patience : Nat) {second : Engine} (same : second.patience = patience) :
    Coupled Spliced (Engine.exhausted patience) second where
  interpret _ _ := .gaveUp Failure.isDepth_tooDeep fun session => ⟨session, rfl⟩
  apply _ _ _ := .gaveUp Failure.isDepth_tooDeep fun session => ⟨session, rfl⟩
  advance _ := .gaveUp Failure.isDepth_tooDeep fun session => ⟨session, rfl⟩
  evaluate _ _ := .gaveUp Failure.isDepth_tooDeep fun session => ⟨session, rfl⟩
  patience := same.symm

theorem steady_mirrors (patience depth : Nat) : ∀ depth', depth ≤ depth' →
    Coupled Spliced (Engine.steady patience depth) (Engine.ofDepth patience depth') ∧
    ∀ {arguments arguments'}, SplicedRow Spliced arguments arguments' → ∀ scope,
      Mirrors Spliced (SameLast arguments arguments')
        (Interpret.values (Engine.steady patience depth) scope arguments)
        (Interpret.values (Engine.ofDepth patience depth') scope arguments') := by
  -- Splicing only takes levels away, so the second engine never needs more of them than the first.
  induction depth with
  | zero =>
      intro depth' _
      refine ⟨exhausted_coupled patience (Engine.patience_ofDepth patience depth'),
        fun row scope => ?_⟩
      cases row with
      | nil => exact .pure ⟨rfl, rfl, rfl⟩
      | keep | inner => exact .gaveUp Failure.isDepth_tooDeep fun session => ⟨session, rfl⟩
  | succ depth ih =>
      intro depth' enough
      obtain ⟨further, rfl⟩ := Nat.exists_eq_succ_of_ne_zero (show depth' ≠ 0 by omega)
      obtain ⟨coupled, rows⟩ := ih further (by omega)
      have trees {e e' : Expr} (spliced : Spliced e e') (scope : Nat) : Mirrors Spliced Eq
          ((Engine.steady patience (depth + 1)).interpret e scope)
          ((Engine.ofDepth patience (further + 1)).interpret e' scope) := by
        cases spliced with
        | refl => exact .checked (Interpret.same_mirrors coupled e)
        | call items => exact .checked (Interpret.call_mirrors coupled items)
        | @array place _ _ items => exact .checked (Interpret.array_mirrors coupled place items)
        | @map place _ _ items => exact .checked (Interpret.map_mirrors coupled place items)
        | sequence row => exact spliced_sequence_mirrors (by omega) (rows row scope)
      refine ⟨⟨trees, fun callee arguments place => ?_, fun ref => ?_, fun source scope => ?_, ?_⟩,
        fun row scope => ?_⟩
      · exact Apply.apply_mirrors coupled callee arguments
      · exact LazySequence.advance_related coupled.related (fun _ => rfl) ref
      · exact Engine.evaluateText_mirrors coupled source
      · exact coupled.patience
      · exact values_mirrors (fun spliced => trees spliced scope)
          (fun row => (ih (further + 1) (by omega)).2 row scope) row

/-! ## Runs of sequences -/

section
variable {session between after : Session} {ref patience depth : Nat} {v : Value}
variable {values : List Value}

theorem Interpret.runOn_values_cons {engine : Engine}
    (first : (engine.interpret e scope).runOn session = (.ok v, between))
    (rest : (Interpret.values engine scope arguments).runOn between = (.ok values, after)) :
    (Interpret.values engine scope (e :: arguments)).runOn session =
      (.ok (v :: values), after) := by
  unfold Interpret.values at rest ⊢
  rw [List.mapM_cons, Eval.runOn_bind, first]
  show Eval.runOn between (_ >>= _) = _
  rw [Eval.runOn_bind, rest]
  rfl

variable (bound : session.store.scopes.lookup? scope sequenceName = some (.library ref))
  (function : after.store.functionAt? ref = some (.core .sequence))
include bound function

theorem runOn_ofDepth_sequence
    (row : (Interpret.values (Engine.ofDepth patience (depth + 1)) scope arguments).runOn session =
      (.ok values, after)) :
    ((Engine.ofDepth patience (depth + 2)).interpret
        (.call place (.command commandPlace sequenceName :: arguments)) scope).runOn session =
      (.ok (values.getLastD .null), after) := by
  rw [Engine.interpret_ofDepth, Interpret.runOn_callNamed bound, Eval.runOn_bind, row]
  exact Apply.runOn_sequence _ function values

theorem runOn_steady_sequence (knows : session.store.functionAt? ref = some (.core .sequence))
    (row : (Interpret.values (Engine.steady patience (depth + 1)) scope arguments).runOn session =
      (.ok values, after)) :
    ((Engine.steady patience (depth + 2)).interpret
        (.call place (.command commandPlace sequenceName :: arguments)) scope).runOn session =
      (.ok (values.getLastD .null), after) := by
  have known : session.store.knowsSequences scope = true := by
    simp [Store.knowsSequences, bound, knows]
  rw [Engine.runOn_steady _ _ _ known, Interpret.runOn_callNamed bound, Eval.runOn_bind, row]
  exact Apply.runOn_sequence _ function values

/-- The value of a sequence that ends in an empty one is null, but the last pass drops the empty
one, and then the value is that of the argument before it. -/
theorem runOn_empty_last {emptyPlace emptyCommandPlace : Location}
    (still : after.store.scopes.lookup? scope sequenceName = some (.library ref))
    (flat : e.sequence? = none) (spliced : e.withSequences = e)
    (run : ((Engine.ofDepth patience (depth + 2)).interpret e scope).runOn session =
      (.ok v, after)) :
    let whole := Expr.call place [.command commandPlace sequenceName, e,
      .call emptyPlace [.command emptyCommandPlace sequenceName]]
    ((Engine.ofDepth patience (depth + 3)).interpret whole scope).runOn session =
        (.ok .null, after) ∧
      ((Engine.ofDepth patience (depth + 3)).interpret whole.withSequences scope).runOn session =
        (.ok v, after) := by
  intro whole
  have nothing (depth : Nat) : (Interpret.values (Engine.ofDepth patience depth) scope []).runOn
      after = (.ok [], after) := rfl
  have empty : ((Engine.ofDepth patience (depth + 2)).interpret
      (.call emptyPlace [.command emptyCommandPlace sequenceName]) scope).runOn after =
        (.ok .null, after) := runOn_ofDepth_sequence still function (nothing _)
  have dropped : whole.withSequences = .call place [.command commandPlace sequenceName, e] := by
    rw [Expr.withSequences_sequence, List.map_cons, Expr.splice_cons, spliced, flat]
    rfl
  constructor
  · have both := Interpret.runOn_values_cons run (Interpret.runOn_values_cons empty (nothing _))
    exact runOn_ofDepth_sequence bound function both
  · have only := Interpret.runOn_values_cons run (nothing _)
    rw [dropped]
    exact runOn_ofDepth_sequence bound function only

end

/-! ## The meaning of a tree -/

/-- Wherever a run of a tree comes to a sequence, its name means the library's function: giving up
at any other sequence makes no difference. -/
def KeepsSequences (patience depth : Nat) (session : Session) (e : Expr) (scope : Nat) : Prop :=
  ((Engine.steady patience depth).interpret e scope).runOn session =
    ((Engine.ofDepth patience depth).interpret e scope).runOn session

/-- Unless the evaluation of a tree goes too deep, the tree with its inner sequences spliced has the
same result, or the same failure, and the same effects: the sessions that they leave behind are the
same but for the bodies of functions, which are spliced too. -/
theorem interpret_withSequences {e : Expr} (keepsLast : e.Everywhere Expr.KeepsLast)
    {patience depth scope : Nat} {session : Session}
    (keepsSequences : KeepsSequences patience depth session e scope)
    (followed : Followed (((Engine.ofDepth patience depth).interpret e scope).runOn session)) :
    let before := ((Engine.ofDepth patience depth).interpret e scope).runOn session
    let after := ((Engine.ofDepth patience depth).interpret e.withSequences scope).runOn session
    GaveUp before.1 ∨
      Followed after ∧ after.1 = before.1 ∧ after.2.events = before.2.events ∧
        before.2.Twin Spliced after.2 := by
  intro before after
  change Followed before at followed
  have ends := (steady_mirrors patience depth depth le_rfl).1.interpret
    (Expr.spliced_withSequences keepsLast) scope session session (.refl .refl session)
  rw [keepsSequences] at ends
  change EndAlike Spliced Eq session before after at ends
  generalize before = end₁ at ends followed ⊢
  generalize after = end₂ at ends ⊢
  cases ends with
  | gaveUp depth => exact .inl ⟨_, rfl, depth⟩
  | failed twins kept => exact .inr ⟨twins.followed followed, rfl, twins.events, twins⟩
  | returned same twins kept =>
      subst same
      exact .inr ⟨twins.followed followed, rfl, twins.events, twins⟩

/-- A sequence with empty and inner sequences before its last argument. -/
def nestedSequence : Expr :=
  let sequence (arguments : List Expr) : Expr :=
    .call .nowhere (.command .nowhere sequenceName :: arguments)
  let text : String → Expr := Expr.ofText .nowhere
  sequence [sequence [], sequence [text "a", sequence [text "b", text "c"]], text "d"]

def freshSession : Session := .start .empty [] [] .system

set_option maxRecDepth 4000 in
theorem lookup?_freshSession :
    freshSession.store.scopes.lookup? 1 sequenceName = some (.library 19) := by
  have inner : List.lookup sequenceName (freshSession.store.scopes.bindings 1) = none := rfl
  have parent : freshSession.store.scopes.parent? 1 = some ⟨0, Nat.one_pos⟩ := rfl
  have outer : List.lookup sequenceName (freshSession.store.scopes.bindings 0) =
    some (.library 19) := rfl
  rw [Scopes.lookup?, inner, parent]
  show freshSession.store.scopes.lookup? 0 sequenceName = _
  rw [Scopes.lookup?, outer]

theorem run_nestedSequence {engine : Nat → Engine}
    (text : ∀ depth s, ((engine (depth + 1)).interpret (.ofText .nowhere s) 1).runOn freshSession =
      (.ok (.string s), freshSession))
    (sequence : ∀ {depth arguments values},
      (Interpret.values (engine (depth + 1)) 1 arguments).runOn freshSession =
        (.ok values, freshSession) →
      ((engine (depth + 2)).interpret
        (.call .nowhere (.command .nowhere sequenceName :: arguments)) 1).runOn freshSession =
        (.ok (values.getLastD .null), freshSession)) :
    ((engine 5).interpret nestedSequence 1).runOn freshSession =
      (.ok (.string "d"), freshSession) := by
  have nothing (depth : Nat) : (Interpret.values (engine depth) 1 []).runOn freshSession =
      (.ok [], freshSession) := rfl
  have deepest := sequence (Interpret.runOn_values_cons (text 1 "b")
    (Interpret.runOn_values_cons (text 1 "c") (nothing _)))
  have inner := sequence (Interpret.runOn_values_cons (text 2 "a")
    (Interpret.runOn_values_cons deepest (nothing _)))
  exact sequence (Interpret.runOn_values_cons (sequence (nothing _))
    (Interpret.runOn_values_cons inner (Interpret.runOn_values_cons (text 3 "d") (nothing _))))

theorem nestedSequence_spliced :
    nestedSequence.Everywhere Expr.KeepsLast ∧ KeepsSequences 100 5 freshSession nestedSequence 1 ∧
      (((Engine.ofDepth 100 5).interpret nestedSequence.withSequences 1).runOn freshSession).1 =
        .ok (.string "d") := by
  have keepsLast : nestedSequence.Everywhere Expr.KeepsLast := by
    simp [nestedSequence, Expr.ofText, Expr.everywhere_call, Expr.everywhere_command,
      Expr.everywhere_value, Expr.KeepsLast, Expr.RowKeepsLast, Expr.Hollow, Expr.sequence?,
      Expr.withSequences, Expr.withSequencesAll, Expr.splice]
  have function : freshSession.store.functionAt? 19 = some (.core .sequence) := rfl
  have plain := @run_nestedSequence (Engine.ofDepth 100) (fun _ _ => rfl)
    fun row => runOn_ofDepth_sequence lookup?_freshSession function row
  have steady := @run_nestedSequence (Engine.steady 100) (fun _ _ => rfl)
    fun row => runOn_steady_sequence lookup?_freshSession function function row
  have keepsSequences : KeepsSequences 100 5 freshSession nestedSequence 1 :=
    steady.trans plain.symm
  refine ⟨keepsLast, keepsSequences, ?_⟩
  have followed : Followed (((Engine.ofDepth 100 5).interpret nestedSequence 1).runOn
      freshSession) := by
    rw [plain]
    exact ⟨rfl, by decide +kernel⟩
  rcases interpret_withSequences keepsLast keepsSequences followed with
    ⟨failure, failed, -⟩ | ⟨-, same, -⟩
  · rw [plain] at failed
    cases failed
  · rw [same, plain]

end ShellLisp
