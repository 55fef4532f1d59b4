import ShellLisp.Proofs.Failing.Texts
import ShellLisp.Proofs.Interactive.Results
import ShellLisp.Proofs.Serving.Streams

/-!
# Answers

Once a line or a request has been evaluated to a value or to a problem, the session answers it,
unless the value cannot be printed. There are three reasons for that: the value holds values that hold
values and so on for as many levels as printing may go, which is so for every value that holds
itself; it holds an integer of too many digits; or it holds a function whose parameters a program
has replaced by something that is no row. Nothing turns these failures into problems.
-/

namespace ShellLisp

namespace Store

/-! ## What printing goes through -/

/-- The values that are printed as parts of a value. -/
def parts (store : Store) : Value → List Value
  | .tuple items => items
  | .array ref => (store.array ref).toList
  | .map ref => (store.map ref).toList.map (·.1) ++ (store.map ref).toList.map (·.2)
  | .library ref => [(store.libraries[ref]?.map (·.name)).getD .null]
  | .form ref => [(store.forms[ref]?.map (·.name)).getD .null]
  | .sequence ref => [(store.sequences[ref]?.map (·.label)).getD .null]
  | .closure ref =>
      match store.closures[ref]? with
      | some function =>
          function.name :: (store.fixedElements function.parameters).toOption.getD []
      | none => []
  | _ => []

/-- Whether a value has parts that have parts, for as many levels as given. -/
def Nests (store : Store) : Nat → Value → Prop
  | 0, _ => True
  | depth + 1, value => ∃ part ∈ store.parts value, store.Nests depth part

def Shows (store : Store) : Value → Value → Prop :=
  Relation.ReflTransGen fun value part => part ∈ store.parts value

/-- What makes printing a value fail when it may go as deep as given, with the failure. -/
inductive Spoils (store : Store) (depth : Nat) (value : Value) : Failure → Prop
  | nested (deep : store.Nests depth value) : Spoils store depth value .tooDeep
  | digits {n : Int} (shown : store.Shows value (.number (.int n)))
      (long : Fault.digitLimit < (Decimal.digitsOf n.natAbs).length) :
      Spoils store depth value (.fault .tooManyDigits)
  | parameters {ref : Nat} {function : Closure} {fault : Fault}
      (shown : store.Shows value (.closure ref)) (found : store.closures[ref]? = some function)
      (failed : store.fixedElements function.parameters = .error fault) :
      Spoils store depth value (.fault fault)

variable {store : Store} {value part : Value} {failure : Failure}

section
variable {ref : Nat} {entry : Value × Value} {function : Closure}

theorem key_mem_parts (member : entry ∈ (store.map ref).toList) :
    entry.1 ∈ store.parts (.map ref) := List.mem_append_left _ (List.mem_map_of_mem member)

theorem item_mem_parts (member : entry ∈ (store.map ref).toList) :
    entry.2 ∈ store.parts (.map ref) := List.mem_append_right _ (List.mem_map_of_mem member)

theorem parts_closure (found : store.closures[ref]? = some function) :
    store.parts (.closure ref) =
      function.name :: (store.fixedElements function.parameters).toOption.getD [] := by
  simp only [parts, found]

theorem name_mem_parts (found : store.closures[ref]? = some function) :
    function.name ∈ store.parts (.closure ref) := by
  rw [parts_closure found]
  exact List.mem_cons_self

/-- The parameters stand for themselves in what is printed, not as one value. -/
theorem parameter_mem_parts (found : store.closures[ref]? = some function)
    {parameters : List Value} (made : Failure.lift (store.fixedElements function.parameters) =
      .ok parameters) {parameter : Value} (member : parameter ∈ parameters) :
    parameter ∈ store.parts (.closure ref) := by
  rw [parts_closure found]
  cases elements : store.fixedElements function.parameters with
  | error fault => rw [elements] at made; cases made
  | ok found =>
      rw [elements] at made
      cases made
      exact List.mem_cons_of_mem _ member

end

theorem Nests.less {depth : Nat} (nests : store.Nests (depth + 1) value) :
    store.Nests depth value := by
  induction depth generalizing value with
  | zero => trivial
  | succ depth ih =>
      obtain ⟨part, inside, deeper⟩ := nests
      exact ⟨part, inside, ih deeper⟩

namespace Spoils

theorem mono {depth less : Nat} (spoils : store.Spoils depth value failure) (below : less ≤ depth) :
    store.Spoils less value failure := by
  cases spoils with
  | nested deep => exact .nested (Nat.decreasingInduction (fun _ _ => Nests.less) deep below)
  | digits shown long => exact .digits shown long
  | parameters shown found failed => exact .parameters shown found failed

theorem of_part {depth : Nat} (inside : part ∈ store.parts value)
    (spoils : store.Spoils depth part failure) : store.Spoils (depth + 1) value failure := by
  cases spoils with
  | nested deep => exact .nested ⟨part, inside, deep⟩
  | digits shown long => exact .digits (.head inside shown) long
  | parameters shown found failed => exact .parameters (.head inside shown) found failed

theorem of_number {depth : Nat} {n : Number} :
    FailsOnly (store.Spoils depth (.number n)) (Failure.lift n.text) := by
  refine .lift fun fault failed => ?_
  cases n with
  | float x => cases failed
  | int n =>
      unfold Number.text Number.integerText at failed
      dsimp only at failed
      split at failed
      · rename_i long
        cases failed
        exact .digits .refl long
      · cases failed

end Spoils

theorem literalWithin_spoiled (store : Store) (depth : Nat) (within : List Value) (value : Value) :
    FailsOnly (store.Spoils depth value) (store.literalWithin depth within value) := by
  induction depth generalizing within value with
  | zero => exact .error (.nested trivial)
  | succ depth ih =>
      have literal {inner : Value} (within : List Value) (inside : inner ∈ store.parts value) :
          FailsOnly (store.Spoils (depth + 1) value) (store.literalWithin depth within inner) :=
        (ih within inner).mono fun _ spoils => spoils.of_part inside
      cases value with
      | number n => exact Spoils.of_number
      | tuple items =>
          exact (FailsOnly.mapM fun item member => literal _ member).bind fun parts _ => .ok _
      | array ref =>
          exact .ite (.ok _)
            ((FailsOnly.mapM fun item member => literal _ member).bind fun parts _ => .ok _)
      | map ref =>
          refine .ite (.ok _) ((FailsOnly.mapM fun entry member => ?_).bind fun parts _ => .ok _)
          exact (literal _ (key_mem_parts member)).bind fun name _ =>
            (literal _ (item_mem_parts member)).bind fun text _ => .ok _
      | library | form | sequence =>
          exact (FailsOnly.name (literal _ List.mem_cons_self)).bind fun name _ => .ok _
      | closure ref =>
          rw [literalWithin]
          dsimp only
          split
          · exact .ok _
          · rename_i function found
            refine (FailsOnly.lift fun fault failed =>
              .parameters .refl found failed).bind fun parameters made => ?_
            refine (FailsOnly.mapM fun parameter member =>
              .name (literal _ (parameter_mem_parts found made member))).bind fun names _ => ?_
            have named := FailsOnly.name (literal within (name_mem_parts found))
            exact .ite ((named.map ("fn " ++ ·)).bind fun label _ => .ok _) (.ok _)
      | host function => cases function <;> exact .ok _
      | null | bool | string | complex | bound | object => exact .ok _

theorem literal_spoiled (store : Store) (value : Value) :
    FailsOnly (store.Spoils depthLimits.values value) (store.literal value) :=
  literalWithin_spoiled store _ _ value

theorem leafText_spoiled (store : Store) (quoted : Bool) (value : Value) :
    FailsOnly (store.Spoils depthLimits.values value) (store.leafText quoted value) := by
  unfold leafText
  split
  case h_4 => exact Spoils.of_number
  case h_6 => exact literal_spoiled store _
  all_goals exact .ok _

theorem textWithin_spoiled (store : Store) {leaf : Bool → Value → Except Failure String}
    (leaves : ∀ quoted value,
      FailsOnly (store.Spoils depthLimits.values value) (leaf quoted value))
    {depth : Nat} (below : depth ≤ depthLimits.values) (quoted : Bool) (value : Value) :
    FailsOnly (store.Spoils depth value) (store.textWithin leaf depth quoted value) := by
  induction depth generalizing quoted value with
  | zero => exact .error (.nested trivial)
  | succ depth ih =>
      have inner {part : Value} (inside : part ∈ store.parts value) :
          FailsOnly (store.Spoils (depth + 1) value) (store.textWithin leaf depth true part) :=
        (ih (Nat.le_of_succ_le below) true part).mono fun _ spoils => spoils.of_part inside
      cases value with
      | tuple items =>
          exact (FailsOnly.mapM fun item member => inner member).bind fun parts _ => .ok _
      | array ref =>
          exact (FailsOnly.mapM fun item member => inner member).bind fun parts _ => .ok _
      | map ref =>
          refine (FailsOnly.mapM fun entry member => ?_).bind fun parts _ => .ok _
          exact (inner (key_mem_parts member)).bind fun name _ =>
            (inner (item_mem_parts member)).bind fun text _ => .ok _
      -- A leaf may go as deep as ever, which is deeper than what is left here.
      | _ => exact (leaves quoted _).mono fun _ spoils => spoils.mono below

theorem text_spoiled (store : Store) (quoted : Bool) (value : Value) :
    FailsOnly (store.Spoils depthLimits.values value) (store.text quoted value) :=
  textWithin_spoiled store (leafText_spoiled store) (Nat.le_refl _) quoted value

theorem display_spoiled (store : Store) (style : Style) (value : Value) :
    FailsOnly (store.Spoils depthLimits.values value) (store.display style value) := by
  have coloured : FailsOnly (store.Spoils depthLimits.values value)
      (store.coloured style value) := by
    have leaf (leaf : Value) :
        FailsOnly (store.Spoils depthLimits.values leaf) (store.colouredLeaf leaf) :=
      (leafText_spoiled store true leaf).bind fun text _ => .ok _
    exact .ite (textWithin_spoiled store (fun _ => leaf) (Nat.le_refl _) true value)
      (text_spoiled store true value)
  unfold display
  split
  · exact .ite (.ok _) coloured
  · exact coloured

/-! ## Values that hold themselves -/

def held (store : Store) : Value → List Value
  | .tuple items => store.parts (.tuple items)
  | .array ref => store.parts (.array ref)
  | .map ref => store.parts (.map ref)
  | _ => []

/-- A value from which values in values lead on for ever. -/
def Holds (store : Store) : Value → Value → Prop :=
  Relation.TransGen fun value inner => inner ∈ store.held value

theorem exists_error_of_mem {α β : Type} {items : List α} {action : α → Except Failure β}
    (fails : ∃ item ∈ items, ∃ failure, action item = .error failure) :
    ∃ failure, items.mapM action = .error failure := by
  induction items with
  | nil =>
      obtain ⟨_, inside, -⟩ := fails
      cases inside
  | cons first rest ih =>
      rw [List.mapM_cons]
      cases done : action first with
      | error failure => exact ⟨failure, rfl⟩
      | ok result =>
          obtain ⟨item, inside, failure, failed⟩ := fails
          have later : item ∈ rest := by
            refine (List.mem_cons.mp inside).resolve_left ?_
            rintro rfl
            rw [done] at failed
            cases failed
          obtain ⟨found, unprinted⟩ := ih ⟨item, later, failure, failed⟩
          exact ⟨found, by rw [unprinted]; rfl⟩

theorem textWithin_fails_of_held {leaf : Bool → Value → Except Failure String} {depth : Nat}
    {inner : Value} (inside : inner ∈ store.held value)
    (fails : ∃ failure, store.textWithin leaf depth true inner = .error failure) (quoted : Bool) :
    ∃ failure, store.textWithin leaf (depth + 1) quoted value = .error failure := by
  have row {items : List Value} (member : inner ∈ items) :
      ∃ failure, (do
          let parts ← items.mapM (store.textWithin leaf depth true)
          return "[" ++ " ".intercalate parts ++ "]" : Except Failure String) = .error failure := by
    obtain ⟨failure, failed⟩ := exists_error_of_mem ⟨inner, member, fails⟩
    exact ⟨failure, by rw [failed]; rfl⟩
  cases value with
  | tuple items => exact row inside
  | array ref => exact row inside
  | map ref =>
      -- An entry fails when its key does, and when its value does behind a key that is printed.
      have entry : ∃ entry ∈ (store.map ref).toList, ∃ failure, (do
          let name ← store.textWithin leaf depth true entry.1
          let text ← store.textWithin leaf depth true entry.2
          return name ++ " " ++ text : Except Failure String) = .error failure := by
        obtain ⟨failure, failed⟩ := fails
        rcases List.mem_append.mp inside with key | item
        · obtain ⟨entry, member, rfl⟩ := List.mem_map.mp key
          exact ⟨entry, member, failure, by rw [failed]; rfl⟩
        · obtain ⟨entry, member, rfl⟩ := List.mem_map.mp item
          refine ⟨entry, member, ?_⟩
          cases named : store.textWithin leaf depth true entry.1 with
          | error first => exact ⟨first, rfl⟩
          | ok name => exact ⟨failure, by rw [failed]; rfl⟩
      obtain ⟨failure, failed⟩ := exists_error_of_mem entry
      exact ⟨failure, congrArg (· >>= _) failed⟩
  | _ => cases inside

/-- However deep printing may go, a value that leads back to one that holds itself is not printed. -/
theorem textWithin_fails_of_cycle {leaf : Bool → Value → Except Failure String} {cyclic : Value}
    (cycle : store.Holds cyclic cyclic) (depth : Nat) (quoted : Bool)
    (leads : value = cyclic ∨ store.Holds value cyclic) :
    ∃ failure, store.textWithin leaf depth quoted value = .error failure := by
  induction depth generalizing value quoted with
  | zero => exact ⟨.tooDeep, rfl⟩
  | succ depth ih =>
      -- One step along the cycle there is a value that leads back to it again.
      have holds : store.Holds value cyclic := by
        rcases leads with rfl | holds
        · exact cycle
        · exact holds
      rcases Relation.TransGen.head'_iff.mp holds with ⟨inner, inside, rest⟩
      refine textWithin_fails_of_held inside (ih true ?_) quoted
      exact (Relation.reflTransGen_iff_eq_or_transGen.mp rest).imp Eq.symm id

theorem text_fails_of_cycle (cycle : store.Holds value value) (quoted : Bool) :
    ∃ failure, store.text quoted value = .error failure :=
  textWithin_fails_of_cycle cycle _ quoted (.inl rfl)

theorem display_fails_of_cycle (cycle : store.Holds value value) (style : Style) :
    ∃ failure, store.display style value = .error failure := by
  have coloured : ∃ failure, store.coloured style value = .error failure := by
    unfold coloured
    split
    · exact textWithin_fails_of_cycle cycle _ true (.inl rfl)
    · exact text_fails_of_cycle cycle true
  unfold display
  split
  · rcases Relation.TransGen.head'_iff.mp cycle with ⟨inner, inside, -⟩
    cases inside
  · exact coloured

end Store

namespace Session
variable {session : Session} {style : Style} {line : String} {bytes : List UInt8}

/-- An evaluation that gives a value or a problem of the program. -/
def Ends (session : Session) (source : String) : Prop :=
  (∃ value, (session.evaluate source).1 = .ok value) ∨
    ∃ problem, (session.evaluate source).1 = .error (.problem problem)

/-- An answer that failed because the value that source text evaluates to cannot be printed. -/
def Unprinted {α : Type} (session : Session) (source : String)
    (answer : Except Failure α × Session) : Prop :=
  ∃ value failure, (session.evaluate source).1 = .ok value ∧ answer.1 = .error failure ∧
    answer.2.store.Spoils depthLimits.values value failure

theorem handle_answers (style : Style) (ends : session.Ends line) :
    (∃ printed, (session.handle style line).1 = .ok printed) ∨
      session.Unprinted line (session.handle style line) := by
  have handling := session.handling style line
  unfold Ends at ends
  unfold Unprinted
  generalize session.evaluate line = evaluated at ends handling ⊢
  generalize session.handle style line = answer at handling ⊢
  obtain ⟨outcome, after⟩ := evaluated
  cases handling with
  | problem | hidden | shown => exact .inl ⟨_, rfl⟩
  | @failed failure other =>
      rcases ends with ⟨value, same⟩ | ⟨found, same⟩
      · cases same
      · cases same
        exact absurd rfl (other found)
  | @unprinted value failure seen failed =>
      exact .inr ⟨value, failure, rfl, rfl, Store.display_spoiled _ style value failure failed⟩

theorem handleRequest_answers {request : Request} (read : Request.read bytes = .ok request)
    (ends : ∀ code, request = .evaluation code → session.Ends code) :
    (∃ response, (session.handleRequest bytes).1 = .ok response) ∨
      ∃ code, request = .evaluation code ∧
        session.Unprinted code (session.handleRequest bytes) := by
  unfold handleRequest
  rw [read]
  cases request with
  | refused reason => exact .inl ⟨.failure reason, rfl⟩
  | evaluation code =>
      have ends := ends code rfl
      unfold Ends at ends
      unfold Unprinted accept
      dsimp only
      generalize evaluation : session.evaluate code = evaluated at ends ⊢
      obtain ⟨outcome, after⟩ := evaluated
      rcases ends with ⟨value, same⟩ | ⟨problem, same⟩
      · cases same
        have spoiled := after.store.text_spoiled true value
        cases shown : after.store.text true value with
        | ok text => exact .inl ⟨.result text, congrArg (Except.map Response.result) shown⟩
        | error failure =>
            have unanswered := congrArg (Except.map Response.result) shown
            refine .inr ⟨code, rfl, value, failure, ?_, unanswered, spoiled failure shown⟩
            rw [evaluation]
      · cases same
        exact .inl ⟨.failure problem.text, rfl⟩

/-- No host answers with a value that holds itself. -/
theorem unanswered_of_cycle {value : Value} (returned : (session.evaluate line).1 = .ok value)
    (cycle : (session.evaluate line).2.store.Holds value value) :
    (∀ style, ∃ failure, (session.handle style line).1 = .error failure) ∧
      ∀ bytes, Request.read bytes = .ok (.evaluation line) →
        ∃ failure, (session.handleRequest bytes).1 = .error failure := by
  have rows : isShown value = true := by
    rcases Relation.TransGen.head'_iff.mp cycle with ⟨inner, inside, -⟩
    cases value <;> first | rfl | cases inside
  refine ⟨fun style => ?_, fun bytes read => ?_⟩
  · have handling := session.handling style line
    generalize session.evaluate line = evaluated at returned cycle handling
    generalize session.handle style line = answer at handling ⊢
    obtain ⟨outcome, after⟩ := evaluated
    cases handling with
    | problem | failed => cases returned
    | @hidden found unseen =>
        cases returned
        rw [rows] at unseen
        cases unseen
    | @unprinted found failure => exact ⟨failure, rfl⟩
    | @shown found text seen printed =>
        cases returned
        -- Naming the result binds it in a scope and touches no cell, so the cycle is still there.
        have kept : (after.keepResult value).2.store.held = after.store.held := rfl
        have holds : (after.keepResult value).2.store.Holds value value := by
          unfold Store.Holds
          rw [kept]
          exact cycle
        obtain ⟨failure, failed⟩ := Store.display_fails_of_cycle holds style
        rw [failed] at printed
        cases printed
  · unfold handleRequest accept
    rw [read]
    dsimp only
    generalize session.evaluate line = evaluated at returned cycle ⊢
    obtain ⟨outcome, after⟩ := evaluated
    cases returned
    obtain ⟨failure, failed⟩ := Store.text_fails_of_cycle cycle true
    exact ⟨failure, congrArg (Except.map Response.result) failed⟩

/-- An interactive session answers every line that evaluates to a value or to a problem, and a served
session every such request, with a response that can be sent; unless the value cannot be printed. -/
theorem hosts_answer (session : Session) :
    (∀ style line, session.Ends line →
      (∃ printed, (session.handle style line).1 = .ok printed) ∨
        session.Unprinted line (session.handle style line)) ∧
    ∀ bytes request, Request.read bytes = .ok request →
      (∀ code, request = .evaluation code → session.Ends code) →
      (∃ response sent, (session.handleRequest bytes).1 = .ok response ∧
          response.line = .ok sent) ∨
        ∃ code, request = .evaluation code ∧
          session.Unprinted code (session.handleRequest bytes) := by
  refine ⟨fun style line => handle_answers style, fun bytes request read ends => ?_⟩
  rcases handleRequest_answers read ends with ⟨response, answered⟩ | unprinted
  · obtain ⟨text, made, -⟩ := response.exists_text
    exact .inl ⟨response, _, answered, Connection.line_of_text made⟩
  · exact .inr unprinted

theorem ends_of_isOk {source : String} (ok : (session.evaluate source).1.isOk = true) :
    session.Ends source := by
  unfold Ends
  cases evaluated : (session.evaluate source).1 with
  | ok value => exact .inl ⟨value, rfl⟩
  | error failure =>
      rw [evaluated] at ok
      cases ok

def requestOf (code : String) : List UInt8 :=
  Text.encode ("\x7b\"cmd\": \"eval\", \"code\": \"" ++ code ++ "\"\x7d").toList

theorem hosts_answer_array :
    let session := start .empty [] [] (.recorded [] [])
    let style : Style := ⟨.other "", .other "", false, false⟩
    session.Ends "[1 [2]]" ∧ Request.read (requestOf "[1 [2]]") = .ok (.evaluation "[1 [2]]") ∧
      (∃ printed, (session.handle style "[1 [2]]").1 = .ok printed) ∧
      ∃ response sent, (session.handleRequest (requestOf "[1 [2]]")).1 = .ok response ∧
        response.line = .ok sent := by
  intro session style
  have ends : session.Ends "[1 [2]]" := ends_of_isOk (by decide +kernel)
  have read : Request.read (requestOf "[1 [2]]") = .ok (.evaluation "[1 [2]]") := by decide +kernel
  obtain ⟨handles, serves⟩ := hosts_answer session
  refine ⟨ends, read, ?_, ?_⟩
  · refine (handles style _ ends).resolve_right fun ⟨_, failure, _, failed, _⟩ => ?_
    have answered : (session.handle style "[1 [2]]").1.isOk = true := by decide +kernel
    rw [failed] at answered
    cases answered
  · refine (serves _ _ read fun code same => ?_).resolve_right
      fun ⟨_, _, _, failure, _, failed, _⟩ => ?_
    · cases same
      exact ends
    · have answered : (session.handleRequest (requestOf "[1 [2]]")).1.isOk = true := by
        decide +kernel
      rw [failed] at answered
      cases answered

/-- A value that holds itself cannot be printed, and neither host answers. -/
theorem cyclicValue_unanswered :
    let session := start .empty [] [] (.recorded [] [])
    let style : Style := ⟨.other "", .other "", false, false⟩
    let program := "(do (def $a [1]) (set $a 0 $a))"
    session.Reached ∧ session.Ends program ∧
      (session.handle style program).1 = .error .tooDeep ∧
      Request.read (requestOf program) = .ok (.evaluation program) ∧
      (session.handleRequest (requestOf program)).1 = .error .tooDeep :=
  ⟨.start .empty [] [] _, ends_of_isOk (by decide +kernel), by decide +kernel, by decide +kernel,
    by decide +kernel⟩

end Session

end ShellLisp
