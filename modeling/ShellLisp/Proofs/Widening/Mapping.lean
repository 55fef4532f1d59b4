import ShellLisp.Evaluation.Followed
import ShellLisp.Process.Program
import ShellLisp.Proofs.Members.Paths
import ShellLisp.Proofs.Reading.RoundTrip
import ShellLisp.Proofs.Widening.Loops

/-!
# A loop and a mapping

The program `(for $i in $xs ($f $i))` evaluates like `(Array.map $xs $f)`: both end with the same
value or the same failure after the same events, and leave the same behind. The exception are faults
of the host that reach neither a library call nor a problem inside the function: the mapping makes
them problems, and the loop does not.

How deep evaluation may go is set aside here. It is counted in levels of the engine, of which the loop
and the mapping have equally many above a call, while the host is one frame deeper in one of them.
-/

namespace ShellLisp
open Widening

variable {base scope : Nat} {session other : Session} {source callee : Value} {engine : Engine}

/-! ## The two programs -/

def Expr.loop : Expr :=
  .call ⟨1, 1⟩ [.command ⟨1, 2⟩ "for", .variable ⟨1, 6⟩ "i", .value ⟨1, 9⟩ (.word "in"),
    .variable ⟨1, 12⟩ "xs", callByName ⟨1, 16⟩ ⟨1, 17⟩ ⟨1, 20⟩ "f" "i"]

def Expr.member : Expr :=
  .call ⟨1, 2⟩ [.command ⟨1, 2⟩ "get", .variable ⟨1, 2⟩ "Array", .value ⟨1, 2⟩ (.quoted "map")]

def Expr.mapping : Expr :=
  .call ⟨1, 1⟩ [.member, .variable ⟨1, 12⟩ "xs", .variable ⟨1, 16⟩ "f"]

theorem Expr.read_loop : read "(for $i in $xs ($f $i))" = .ok (some loop) := by
  have lexed : Token.lex "(for $i in $xs ($f $i))" = .ok [⟨.bracket '(', ⟨1, 1⟩⟩,
      ⟨.word "for", ⟨1, 2⟩⟩, ⟨.variable "i", ⟨1, 6⟩⟩, ⟨.word "in", ⟨1, 9⟩⟩,
      ⟨.variable "xs", ⟨1, 12⟩⟩, ⟨.bracket '(', ⟨1, 16⟩⟩, ⟨.variable "f", ⟨1, 17⟩⟩,
      ⟨.variable "i", ⟨1, 20⟩⟩, ⟨.bracket ')', ⟨1, 22⟩⟩, ⟨.bracket ')', ⟨1, 23⟩⟩] := by cbv
  let written : Expr := .call ⟨1, 1⟩ [.value ⟨1, 2⟩ (.word "for"), .variable ⟨1, 6⟩ "i",
    .value ⟨1, 9⟩ (.word "in"), .variable ⟨1, 12⟩ "xs",
    .call ⟨1, 16⟩ [.variable ⟨1, 17⟩ "f", .variable ⟨1, 20⟩ "i"]]
  have parsed : ofSource "(for $i in $xs ($f $i))" = .ok (some written) := by
    rw [ofSource, lexed]
    rfl
  have desugared : written.desugar = .ok loop := by cbv
  exact read_of_ofSource parsed desugared

theorem Expr.read_mapping : read "(Array.map $xs $f)" = .ok (some mapping) := by
  have lexed : Token.lex "(Array.map $xs $f)" = .ok [⟨.bracket '(', ⟨1, 1⟩⟩,
      ⟨.word "Array.map", ⟨1, 2⟩⟩, ⟨.variable "xs", ⟨1, 12⟩⟩, ⟨.variable "f", ⟨1, 16⟩⟩,
      ⟨.bracket ')', ⟨1, 18⟩⟩] := by cbv
  let written : Expr := .call ⟨1, 1⟩ [.value ⟨1, 2⟩ (.word "Array.map"), .variable ⟨1, 12⟩ "xs",
    .variable ⟨1, 16⟩ "f"]
  have parsed : ofSource "(Array.map $xs $f)" = .ok (some written) := by
    rw [ofSource, lexed]
    rfl
  let dotted : Expr := .call ⟨1, 1⟩ [.command ⟨1, 2⟩ "Array.map", .variable ⟨1, 12⟩ "xs",
    .variable ⟨1, 16⟩ "f"]
  have piped : written.withCommands.withPipesWithin depthLimits.trees = .ok dotted := by cbv
  have segments : segments "Array.map" = ["Array", "map"] := by decide +kernel
  have names : isDotted "Array.map" = true ∧ isProgram "Array.map" = false ∧
      isMemberCommand "Array.map" = false ∧ isDotted "xs" = false ∧ isDotted "f" = false := by
    decide +kernel
  have keys : keys ⟨1, 2⟩ ["map"] = .ok [.value ⟨1, 2⟩ (.quoted "map")] := rfl
  have accessed : dotted.withMembers = .ok mapping := by
    simp only [dotted, withMembers, withMembersAll, names, memberLookup, segments, keys]
    rfl
  have shallow : mapping.checkDepth depthLimits.trees = .ok mapping := by cbv
  have members : dotted.withMembersWithin depthLimits.trees = .ok mapping := by
    rw [withMembersWithin, accessed]
    exact shallow
  have flat : mapping.withSequences = mapping := rfl
  have desugared : written.desugar = .ok mapping := by
    simp only [desugar, passes, piped, members, flat, bind, Except.bind, pure, Except.pure]
  exact read_of_ofSource parsed desugared

/-! ## What they do -/

namespace Session

def formNamed? (session : Session) (scope : Nat) (name : String) : Option SpecialForm :=
  match session.store.scopes.lookup? scope name with
  | some (.form ref) => session.store.forms[ref]?.map (·.form)
  | _ => none

def functionNamed? (session : Session) (scope : Nat) (name : String) : Option LibraryFunction :=
  match session.store.scopes.lookup? scope name with
  | some (.library ref) => session.store.functionAt? ref
  | _ => none

/-- The library function under a key of the map that a name is bound to. -/
def memberNamed? (session : Session) (scope : Nat) (name key : String) : Option LibraryFunction :=
  match session.store.scopes.lookup? scope name with
  | some (.map ref) =>
      match (session.store.map ref).get? (.string key) with
      | some (.library ref) => session.store.functionAt? ref
      | _ => none
  | _ => none

/-- The names of both programs are bound: those of the library to what a new session binds them to,
`$xs` to something with elements that is no lazy sequence, and `$f` to something that is called with
values. -/
structure Maps (session : Session) (scope : Nat) (source callee : Value) : Prop where
  each : session.formNamed? scope "for" = some .each
  get : session.functionNamed? scope "get" = some (.core .get)
  map : session.memberNamed? scope "Array" "map" = some (.array .map)
  elements : session.store.scopes.lookup? scope "xs" = some source
  iterable : source.isIterable = true
  stored : ∀ ref, source ≠ .sequence ref
  function : session.store.scopes.lookup? scope "f" = some callee
  callable : callee.isCallable = true
  plain : ∀ ref, callee ≠ .form ref

end Session

variable (maps : session.Maps scope source callee)
include maps

theorem Interpret.runOn_loop :
    (interpret engine.deeper.deeper .loop scope).runOn session =
      Eval.runOn session (do
        let values ← engine.deeper.deeper.collectMap (Cursor.entries session.store source)
          (Form.visit engine.deeper.deeper scope "i" (callByName ⟨1, 16⟩ ⟨1, 17⟩ ⟨1, 20⟩ "f" "i"))
        Eval.newArray values) := by
  have each := maps.each
  unfold Session.formNamed? at each
  split at each
  case h_2 => cases each
  rename_i ref bound
  obtain ⟨cell, there, form⟩ := Option.map_eq_some_iff.mp each
  let body : List Expr := [.variable ⟨1, 6⟩ "i", .value ⟨1, 9⟩ (.word "in"),
    .variable ⟨1, 12⟩ "xs", callByName ⟨1, 16⟩ ⟨1, 17⟩ ⟨1, 20⟩ "f" "i"]
  have called : (callValue engine.deeper.deeper scope ⟨1, 1⟩ (.form ref) body).runOn session =
      (Form.each engine.deeper.deeper scope ⟨1, 1⟩ body).runOn session := by
    show (Eval.ask (fun store => store.forms[ref]?) >>= _).runOn session = _
    rw [Eval.runOn_ask_bind, there]
    show (Form.call engine.deeper.deeper scope ⟨1, 1⟩ body cell.form).runOn session = _
    rw [form]
    rfl
  have elements := Eval.runOn_lookup maps.elements
  have iterable : (Arguments.iterable ⟨1, 12⟩ source).runOn session = (.ok ⟨⟩, session) := by
    rw [Arguments.iterable, if_pos maps.iterable]
    rfl
  show (callExpression engine.deeper.deeper scope ⟨1, 1⟩ (.command ⟨1, 2⟩ "for") body).runOn
    session = _
  rw [callExpression_eq]
  refine (Eval.runOn_bind_ok (Eval.runOn_lookup bound) _).trans (called.trans ?_)
  refine (Eval.runOn_bind_ok (a := "i") rfl _).trans ?_
  refine (Eval.runOn_bind_ok (a := PUnit.unit) rfl _).trans ?_
  refine (Eval.runOn_bind_ok elements _).trans ?_
  exact Eval.runOn_bind_ok iterable _

theorem Interpret.runOn_member :
    ∃ ref, session.store.functionAt? ref = some (.array .map) ∧
      (interpret engine.deeper .member scope).runOn session = (.ok (.library ref), session) := by
  have get := maps.get
  unfold Session.functionNamed? at get
  split at get
  case h_2 => cases get
  rename_i getRef boundGet
  obtain ⟨cell, there, function⟩ := Option.map_eq_some_iff.mp get
  have map := maps.map
  unfold Session.memberNamed? at map
  split at map
  case h_2 => cases map
  rename_i table boundTable
  split at map
  case h_2 => cases map
  rename_i ref entry
  refine ⟨ref, map, ?_⟩
  -- The table is no function, so what is found in it is not bound to it.
  have followed : (Member.follow (.map table) [.string "map"] none).runOn session =
      (.ok (.library ref, some (.map table)), session) := by
    have read : Member.read session.store (.map table) (.string "map") = .ok (.library ref) := by
      show Except.ok (((session.store.map table).get? (.string "map")).getD .null) = _
      rw [entry]
      rfl
    rw [Member.follow, Eval.runOn_get_bind, read]
    rfl
  have read : (cell.function.call engine ⟨1, 2⟩ [.map table, .string "map"]).runOn session =
      (.ok (.library ref), session) := by
    rw [function]
    refine (Core.runOn_get engine ⟨1, 2⟩ (.map table) (.string "map") [] session).trans ?_
    exact Core.runOn_followAndBind (fun function same => by cases same) followed
  have applied : (engine.deeper.apply (.library getRef) [.map table, .string "map"]
      ⟨1, 2⟩).runOn session = (.ok (.library ref), session) := by
    refine (Apply.runOn_library there _ _ _).trans ?_
    rw [Eval.recovering, Eval.runOn_tryCatch, read]
  have arguments : (values engine.deeper scope [.variable ⟨1, 2⟩ "Array",
      .value ⟨1, 2⟩ (.quoted "map")]).runOn session =
        (.ok [.map table, .string "map"], session) :=
    congrArg (fun found => (Except.ok [found.getD Value.null, .string "map"], session)) boundTable
  refine (runOn_callNamed boundGet _ ⟨1, 2⟩ ⟨1, 2⟩ _).trans ?_
  exact (Eval.runOn_bind_ok arguments _).trans applied

theorem Interpret.runOn_mapping :
    (interpret engine.deeper.deeper .mapping scope).runOn session =
      Eval.runOn session (Eval.recovering ⟨1, 1⟩ (do
        let values ← engine.deeper.collectMap (Cursor.entries session.store source)
          fun item => engine.deeper.apply callee [item] ⟨1, 1⟩
        Eval.newArray values)) := by
  obtain ⟨ref, function, member⟩ : ∃ ref, _ ∧
      (interpret engine.deeper .member scope).runOn session = _ := runOn_member maps
  obtain ⟨cell, there, function⟩ := Option.map_eq_some_iff.mp function
  have arguments : (values engine.deeper.deeper scope [.variable ⟨1, 12⟩ "xs",
      .variable ⟨1, 16⟩ "f"]).runOn session = (.ok [source, callee], session) := by
    show (Except.ok [(session.store.scopes.lookup? scope "xs").getD .null,
      (session.store.scopes.lookup? scope "f").getD .null], session) = _
    rw [maps.elements, maps.function]
    rfl
  have given : (Sequences.withFunction "map" ⟨1, 1⟩ [source, callee]).runOn session =
      (.ok (source, callee), session) :=
    Sequences.runOn_withFunction_callable maps.iterable maps.callable session
  have mapped : (cell.function.call engine.deeper ⟨1, 1⟩ [source, callee]).runOn session =
      Eval.runOn session (do
        let values ← engine.deeper.collectMap (Cursor.entries session.store source)
          fun item => engine.deeper.apply callee [item] ⟨1, 1⟩
        Eval.newArray values) := by
    rw [function]
    show (Sequences.map engine.deeper ⟨1, 1⟩ [source, callee]).runOn session = _
    rw [Sequences.map]
    refine (Eval.runOn_bind_ok given _).trans ?_
    dsimp only
    split
    · exact absurd rfl (maps.stored _)
    · rfl
  have applied : (engine.deeper.deeper.apply (.library ref) [source, callee] ⟨1, 1⟩).runOn session =
      (Eval.recovering ⟨1, 1⟩ (cell.function.call engine.deeper ⟨1, 1⟩
        [source, callee])).runOn session :=
    Apply.runOn_library there _ _ _
  show (callExpression engine.deeper.deeper scope ⟨1, 1⟩ .member [.variable ⟨1, 12⟩ "xs",
    .variable ⟨1, 16⟩ "f"]).runOn session = _
  rw [callExpression_eq]
  refine (Eval.runOn_bind_ok (a := Value.null) rfl _).trans ?_
  refine (Eval.runOn_bind_ok member _).trans ?_
  refine (Eval.runOn_bind_ok arguments _).trans (applied.trans ?_)
  rw [Eval.recovering, Eval.recovering, Eval.runOn_tryCatch, Eval.runOn_tryCatch, mapped]

omit maps

/-! ## The loop beside the mapping -/

def Engine.called : Engine := ofDepth defaultPatience (depthLimits.evaluation - 2)

/-- The function keeps its name while it is mapped over the elements. -/
def Session.KeepsFunction (session : Session) (scope : Nat) (source callee : Value) : Prop :=
  ∀ cursor between, Engine.called.Walks callee ⟨1, 1⟩ (Cursor.entries session.store source) session
    cursor between → between.store.scopes.lookup? scope "f" = some callee

/-- How the loop ends when the mapping ends: with the same value or the same failure at another
place, and in sessions beside each other. A fault that a program can recover from is a problem of
the mapping, and stays a fault in the loop. Or both ask for something that is not followed. -/
inductive Session.LoopEnds (base : Nat) (place : Location) :
    Except Failure Value × Session → Except Failure Value × Session → Prop
  | returned (value : Value) {session other : Session} (beside : session.Beside base other) :
      LoopEnds base place (.ok value, session) (.ok value, other)
  | failed {failure failure' : Failure} {session other : Session}
      (followed : failure.isInternal = false) (alike : failure.Alike Location.Any failure')
      (beside : session.Beside base other) :
      LoopEnds base place (.error failure, session) (.error failure', other)
  | unfollowed {failure : Failure} {session other : Session} (internal : failure.isInternal = true) :
      LoopEnds base place (.error failure, session) (.error failure, other)
  | unconverted {found : Fault} {session other : Session}
      (kind : found.kind.isRecoverable = true) (beside : session.Beside base other) :
      LoopEnds base place (.error (.at place (.recovered found)), session)
        (.error (.fault found), other)

theorem Accompanies.ends {place : Location} {first second : Eval Value}
    (runs : Accompanies base (first.runOn session) (second.runOn other)) :
    Session.LoopEnds base place
      ((Eval.boundingDepth (some place) (Eval.recovering place first)).runOn session)
      ((Eval.boundingDepth (some place) second).runOn other) := by
  rw [Eval.boundingDepth, Eval.boundingDepth, Eval.recovering, Eval.runOn_tryCatch,
    Eval.runOn_tryCatch, Eval.runOn_tryCatch]
  generalize first.runOn session = end₁ at runs ⊢
  generalize second.runOn other = end₂ at runs ⊢
  cases runs with
  | returned value trails => exact .returned value trails.beside
  | @failed failure _ _ _ alike trails =>
      have beside := trails.beside
      cases alike with
      | problem agree cause => exact .failed rfl (.problem agree cause) beside
      | same =>
          cases failure with
          | problem found => exact .failed rfl (.same _) beside
          | tooDeep => exact .failed rfl (.same _) beside
          | fault found =>
              cases kind : found.kind.isRecoverable with
              | true =>
                  simp only [kind, if_true]
                  exact .unconverted kind beside
              | false =>
                  simp only [kind]
                  cases followed : (Failure.fault found).isInternal with
                  | true => exact .unfollowed followed
                  | false => exact .failed followed (.same _) beside

/-- The loop and the mapping before faults are converted. -/
theorem Engine.collectMap_accompanies (unaffected : ∀ w : Widening, engine.Unaffected w)
    (whole : session.Whole) (present : scope < session.store.scopes.next)
    (maps : session.Maps scope source callee)
    (kept : ∀ cursor between, engine.deeper.Walks callee ⟨1, 1⟩
      (Cursor.entries session.store source) session cursor between →
      between.store.scopes.lookup? scope "f" = some callee) :
    Accompanies session.store.scopes.next
      (Eval.runOn session (do
        let values ← engine.deeper.collectMap (Cursor.entries session.store source)
          fun item => engine.deeper.apply callee [item] ⟨1, 1⟩
        Eval.newArray values))
      (Eval.runOn session (do
        let values ← engine.deeper.deeper.collectMap (Cursor.entries session.store source)
          (Form.visit engine.deeper.deeper scope "i" (callByName ⟨1, 16⟩ ⟨1, 17⟩ ⟨1, 20⟩ "f" "i"))
        Eval.newArray values)) := by
  have stored : (Cursor.entries session.store source).Stored := by
    intro ref same
    cases source with
    | sequence other => exact maps.stored other rfl
    | _ => cases same
  let calls (item : Value) : Eval Value := engine.deeper.apply callee [item] ⟨1, 1⟩
  let visits := Form.visit engine.deeper.deeper scope "i"
    (callByName ⟨1, 16⟩ ⟨1, 17⟩ ⟨1, 20⟩ "f" "i")
  let cursor := Cursor.entries session.store source
  have collected : Accompanies session.store.scopes.next
      ((engine.deeper.collectMap cursor calls).runOn session)
      ((engine.deeper.deeper.collectMap cursor visits).runOn session) :=
    foldWithin_accompanies maps.callable maps.plain unaffected (by decide) kept .start stored
      ⟨.same, whole, whole, Nat.le_refl _⟩ present engine.patience #[]
  -- An array is made of the results in either session, and the session of the mapping stays whole.
  have follows (w : Widening) :
      w.Follows session.store.scopes.next (engine.deeper.collectMap cursor calls)
        (engine.deeper.collectMap cursor calls) :=
    collectMap_related (C := w.rules session.store.scopes.next) (unaffected w).deeper.related
      (fun item => (unaffected w).deeper.apply (w.here _) (.inl rfl) _) cursor
  have more := (whole.runOn follows (Nat.le_refl _)).2
  rw [Eval.runOn_bind, Eval.runOn_bind]
  generalize (engine.deeper.collectMap cursor calls).runOn session = end₁ at collected more ⊢
  generalize (engine.deeper.deeper.collectMap cursor visits).runOn session = end₂ at collected ⊢
  cases collected with
  | failed alike trails => exact .failed alike trails
  | returned values trails =>
      exact trails.accompanies (fun w => (w.rules _).newArray values) more

/-- The loop agrees with the mapping, but for faults of the host that a library call converts. -/
theorem Session.evaluateIn_loop (whole : session.Whole)
    (present : scope < session.store.scopes.next)
    (maps : session.Maps scope source callee) (kept : session.KeepsFunction scope source callee) :
    LoopEnds session.store.scopes.next ⟨1, 1⟩ (session.evaluateIn scope "(Array.map $xs $f)")
      (session.evaluateIn scope "(for $i in $xs ($f $i))") := by
  let engine : Engine := .ofDepth Engine.defaultPatience (depthLimits.evaluation - 3)
  have unaffected (w : Widening) : engine.Unaffected w := Engine.unaffected_ofDepth w _ _
  have runs := Engine.collectMap_accompanies unaffected whole present maps kept
  have evaluated {source : String} {tree : Expr} (read : Expr.read source = .ok (some tree)) :
      session.evaluateIn scope source = (Eval.boundingDepth (some tree.place)
        (Interpret.interpret engine.deeper.deeper tree scope)).runOn session := by
    rw [evaluateIn, Engine.evaluateText, read]
    rfl
  have bounded {first second : Eval Value} (same : first.runOn session = second.runOn session) :
      (Eval.boundingDepth (some ⟨1, 1⟩) first).runOn session =
        (Eval.boundingDepth (some ⟨1, 1⟩) second).runOn session := by
    rw [Eval.boundingDepth, Eval.boundingDepth, Eval.runOn_tryCatch, Eval.runOn_tryCatch, same]
  have loop := (evaluated Expr.read_loop).trans (bounded (Interpret.runOn_loop maps))
  have mapping := (evaluated Expr.read_mapping).trans (bounded (Interpret.runOn_mapping maps))
  rw [loop, mapping]
  exact runs.ends

/-! ## One element -/

theorem Engine.Walks.single {place : Location} {c : Char} {cursor : Cursor} {between : Session}
    (walks : engine.Walks callee place (.chars [c]) session cursor between) :
    cursor = .chars [c] ∧ between = session ∨
      ∃ value, cursor = .chars [] ∧
        (engine.apply callee [.string c.toString] place).runOn session = (.ok value, between) := by
  induction walks with
  | start => exact .inl ⟨rfl, rfl⟩
  | next _ found called ih =>
      rcases ih with ⟨rfl, rfl⟩ | ⟨_, rfl, _⟩
      · cases found
        exact .inr ⟨_, rfl, called⟩
      · cases found

namespace Session

def binds (session : Session) (scope : Nat) (name : String) (value : Value) : Bool :=
  (session.store.scopes.lookup? scope name).any (·.sameKey value)

theorem lookup?_of_binds {name : String} {value : Value}
    (only : ∀ found : Value, found.sameKey value = true → found = value)
    (bound : session.binds scope name value = true) :
    session.store.scopes.lookup? scope name = some value := by
  unfold binds at bound
  cases found : session.store.scopes.lookup? scope name with
  | none =>
      rw [found] at bound
      cases bound
  | some other =>
      rw [found] at bound
      exact congrArg some (only other bound)

theorem lookup?_of_binds_closure {name : String} {ref : Nat}
    (bound : session.binds scope name (.closure ref) = true) :
    session.store.scopes.lookup? scope name = some (.closure ref) :=
  lookup?_of_binds (fun found same => by cases found <;> simp_all [Value.sameKey]) bound

theorem lookup?_of_binds_string {name text : String}
    (bound : session.binds scope name (.string text) = true) :
    session.store.scopes.lookup? scope name = some (.string text) :=
  lookup?_of_binds (fun found same => by cases found <;> simp_all [Value.sameKey]) bound

theorem Maps.of_names {text : String} {ref : Nat}
    (names : session.formNamed? scope "for" = some .each ∧
      session.functionNamed? scope "get" = some (.core .get) ∧
      session.memberNamed? scope "Array" "map" = some (.array .map) ∧
      session.binds scope "xs" (.string text) = true ∧
      session.binds scope "f" (.closure ref) = true) :
    session.Maps scope (.string text) (.closure ref) := by
  obtain ⟨each, get, map, elements, function⟩ := names
  exact ⟨each, get, map, lookup?_of_binds_string elements, rfl, by simp,
    lookup?_of_binds_closure function, rfl, by simp⟩

theorem KeepsFunction.of_single {c : Char}
    (maps : session.Maps scope (.string c.toString) callee)
    (called : ∀ value between, (Engine.called.apply callee [.string c.toString] ⟨1, 1⟩).runOn
      session = (.ok value, between) →
        between.store.scopes.lookup? scope "f" = some callee) :
    session.KeepsFunction scope (.string c.toString) callee := by
  intro cursor between walks
  have chars : Cursor.entries session.store (.string c.toString) = .chars [c] :=
    congrArg Cursor.chars (by simp [Char.toString])
  rw [chars] at walks
  rcases walks.single with ⟨-, rfl⟩ | ⟨value, -, run⟩
  · exact maps.function
  · exact called value between run

def ofProgram (source : String) : Session := ((start .empty [] [] .system).evaluate source).2

theorem whole_ofProgram (source : String) : (ofProgram source).Whole :=
  (Reached.evaluate (.start .empty [] [] .system) source).whole

def wrapping : Session := ofProgram "(defn $f [$x] [$x])\n(def $xs \"a\")"

/-- The loop and the mapping both return. -/
theorem evaluateIn_loop_wrapping :
    LoopEnds wrapping.store.scopes.next ⟨1, 1⟩
        (wrapping.evaluateIn wrapping.module "(Array.map $xs $f)")
        (wrapping.evaluateIn wrapping.module "(for $i in $xs ($f $i))") ∧
      (wrapping.evaluateIn wrapping.module "(for $i in $xs ($f $i))").1.isOk = true := by
  have whole : wrapping.Whole := whole_ofProgram _
  have maps : wrapping.Maps wrapping.module (.string 'a'.toString) (.closure 0) :=
    .of_names (by decide +kernel)
  have kept : ((Engine.called.apply (.closure 0) [.string 'a'.toString] ⟨1, 1⟩).runOn
      wrapping).2.binds wrapping.module "f" (.closure 0) = true := by decide +kernel
  refine ⟨evaluateIn_loop whole whole.module maps (.of_single maps fun value between run => ?_),
    by decide +kernel⟩
  rw [run] at kept
  exact lookup?_of_binds_closure kept

def uncounted : Session :=
  ofProgram "(defn $f [$x] $x)\n(set $f \"params\" 5)\n(def $xs \"a\")"

/-- The mapping ends with a problem, and the loop with a fault of the host. -/
theorem loop_differs_uncounted :
    ¬∀ (session : Session) (scope : Nat) (source callee : Value), session.Whole →
      scope < session.store.scopes.next → session.Maps scope source callee →
      session.KeepsFunction scope source callee →
      (∃ value, (session.evaluateIn scope "(Array.map $xs $f)").1 = .ok value ∧
          (session.evaluateIn scope "(for $i in $xs ($f $i))").1 = .ok value) ∨
        ∃ failure failure' : Failure, failure.Alike Location.Any failure' ∧
          (session.evaluateIn scope "(Array.map $xs $f)").1 = .error failure ∧
          (session.evaluateIn scope "(for $i in $xs ($f $i))").1 = .error failure' := by
  intro agree
  have whole : uncounted.Whole := whole_ofProgram _
  have maps : uncounted.Maps uncounted.module (.string 'a'.toString) (.closure 0) :=
    .of_names (by decide +kernel)
  have fails : ((Engine.called.apply (.closure 0) [.string 'a'.toString] ⟨1, 1⟩).runOn
      uncounted).1.isOk = false := by decide +kernel
  have outcomes : (uncounted.evaluateIn uncounted.module "(Array.map $xs $f)").1.map (fun _ => ()) =
        .error (.at ⟨1, 1⟩ (.recovered (.noLength "int"))) ∧
      (uncounted.evaluateIn uncounted.module "(for $i in $xs ($f $i))").1.map (fun _ => ()) =
        .error (.fault (.noLength "int")) := by decide +kernel
  have kept : uncounted.KeepsFunction uncounted.module (.string 'a'.toString) (.closure 0) :=
    .of_single maps fun value between run => by
      rw [run] at fails
      cases fails
  obtain ⟨mapping, loop⟩ := outcomes
  rcases agree uncounted _ _ _ whole whole.module maps kept with ⟨value, same, -⟩ |
    ⟨failure, failure', alike, same, same'⟩
  · rw [same] at mapping
    cases mapping
  · rw [same] at mapping
    rw [same'] at loop
    cases mapping
    cases loop
    cases alike

end Session

end ShellLisp
