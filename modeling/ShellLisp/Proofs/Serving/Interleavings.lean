import Mathlib.Logic.Function.Basic
import Mathlib.Logic.Relation
import ShellLisp.Evaluation.Followed
import ShellLisp.Process.Program
import ShellLisp.Request

/-!
# Requests of many clients

The clients of a server share a session. Only one line is evaluated at a time, but its value is
printed later, when the lines of other clients may have been evaluated. So the lines of all clients
act on the session as if each was handled as a whole, and so do the responses, up to what other
clients did to a value before it was printed. Only steps that are followed are taken: to print a function
whose parameters are a lazy sequence, or to let go of a view that stands within one, would change what
the clients share.
-/

namespace ShellLisp

open Relation

variable {Client : Type}

/-! ## The two steps of a line -/

namespace Session

/-- The first step: a line is read, and its code is evaluated. -/
def evaluateLine (session : Session) (line : List UInt8) : Except Failure Pending × Session :=
  match Request.read line with
  | .error failure => (.error failure, session)
  | .ok request => session.accept request

/-- The second step: what came of the first one is made a response. -/
def answer (session : Session) (outcome : Except Failure Pending) : Except Failure Response :=
  outcome.bind session.respond

theorem handleRequest_eq_steps (session : Session) (line : List UInt8) :
    session.handleRequest line =
      ((session.evaluateLine line).2.answer (session.evaluateLine line).1,
        (session.evaluateLine line).2) := by
  unfold handleRequest evaluateLine
  cases Request.read line with
  | error failure => rfl
  | ok request =>
      dsimp only
      cases session.accept request with
      | mk outcome after => cases outcome <;> rfl

end Session

/-- A server and its clients. -/
structure Server (Client : Type) where
  session : Session
  waiting : Client → List (List UInt8)
  /-- What came of a client's line that was evaluated and has no response yet. -/
  evaluated : Client → Option (Except Failure Pending)
  responses : Client → List (Except Failure Response)

namespace Server

def opening (session : Session) (lines : Client → List (List UInt8)) : Server Client :=
  ⟨session, lines, fun _ => none, fun _ => []⟩

section Steps
variable [DecidableEq Client]

def evaluate (server : Server Client) (client : Client) (line : List UInt8)
    (rest : List (List UInt8)) : Server Client :=
  { server with
    session := (server.session.evaluateLine line).2
    waiting := Function.update server.waiting client rest
    evaluated :=
      Function.update server.evaluated client (some (server.session.evaluateLine line).1) }

def answer (server : Server Client) (client : Client) (outcome : Except Failure Pending) :
    Server Client :=
  { server with
    evaluated := Function.update server.evaluated client none
    responses := Function.update server.responses client
      (server.responses client ++ [server.session.answer outcome]) }

def handle (server : Server Client) (client : Client) (line : List UInt8)
    (rest : List (List UInt8)) : Server Client :=
  { server with
    session := (server.session.handleRequest line).2
    waiting := Function.update server.waiting client rest
    responses := Function.update server.responses client
      (server.responses client ++ [(server.session.handleRequest line).1]) }

/-- One of the two steps of a line. The line is followed when it is evaluated, and could be printed
at once, and it is followed when it is printed. -/
inductive Step : Server Client → Server Client → Prop
  | evaluate {server : Server Client} {client : Client} {line : List UInt8}
      {rest : List (List UInt8)} (next : server.waiting client = line :: rest)
      (free : server.evaluated client = none)
      (followed : Followed (server.session.handleRequest line)) :
      Step server (server.evaluate client line rest)
  | answer {server : Server Client} {client : Client} {outcome : Except Failure Pending}
      (due : server.evaluated client = some outcome)
      (followed : isFollowed (server.session.answer outcome) = true) :
      Step server (server.answer client outcome)

inductive SerialStep : Server Client → Server Client → Prop
  | handle {server : Server Client} {client : Client} {line : List UInt8}
      {rest : List (List UInt8)} (next : server.waiting client = line :: rest)
      (free : server.evaluated client = none)
      (followed : Followed (server.session.handleRequest line)) :
      SerialStep server (server.handle client line rest)

/-- The steps of all clients in any order that keeps the order of each client. -/
abbrev Run : Server Client → Server Client → Prop := ReflTransGen Step

/-- The lines of all clients one after the other, in an order that keeps the order of each. -/
abbrev SerialRun : Server Client → Server Client → Prop := ReflTransGen SerialStep

theorem SerialStep.run {server after : Server Client} (step : SerialStep server after) :
    server.Run after := by
  cases step with
  | @handle client line rest next free followed =>
      have idle : Function.update server.evaluated client none = server.evaluated := by
        rw [← free, Function.update_eq_self]
      have whole : (server.evaluate client line rest).answer client
          (server.session.evaluateLine line).1 = server.handle client line rest := by
        simp only [answer, evaluate, Server.handle, Session.handleRequest_eq_steps,
          Function.update_idem, idle]
      have printed : isFollowed ((server.evaluate client line rest).session.answer
          (server.session.evaluateLine line).1) = true := by
        rw [Session.handleRequest_eq_steps] at followed
        exact followed.outcome
      rw [← whole]
      exact .tail (.single (.evaluate next free followed))
        (.answer (Function.update_self ..) printed)

theorem SerialRun.run {server after : Server Client} (serial : server.SerialRun after) :
    server.Run after := by
  induction serial with
  | refl => exact .refl
  | tail _ step ih => exact ih.trans step.run

theorem SerialStep.isPrefix {server after : Server Client} (step : SerialStep server after)
    (client : Client) : server.responses client <+: after.responses client := by
  cases step with
  | @handle sender line rest next free =>
      by_cases same : client = sender
      · subst same
        simp only [Server.handle, Function.update_self]
        exact List.prefix_append ..
      · simp only [Server.handle, Function.update_of_ne same]
        exact List.prefix_refl _

theorem SerialRun.isPrefix {server after : Server Client} (serial : server.SerialRun after)
    (client : Client) : server.responses client <+: after.responses client := by
  induction serial with
  | refl => exact List.prefix_refl _
  | tail _ step ih => exact ih.trans (step.isPrefix client)

/-- Nothing happens in a serial run while an only client gets no response. -/
theorem SerialRun.eq_of_alone {server after : Server Client} {client : Client}
    (serial : server.SerialRun after) (alone : ∀ other, other = client)
    (last : after.responses client = server.responses client) : after = server := by
  rcases serial.cases_head with same | ⟨middle, step, rest⟩
  · exact same.symm
  · have kept := SerialRun.isPrefix rest client
    cases step with
    | @handle sender line beyond next free =>
        obtain rfl := alone sender
        have short := kept.length_le
        simp only [last, Server.handle, Function.update_self, List.length_append,
          List.length_singleton] at short
        omega

end Steps

end Server

/-! ## Values that print alike in all stores -/

namespace Value

mutual

/-- Whether a value is printed without what a store holds. -/
def printsAlone : Value → Bool
  | .null | .bool _ | .number _ | .string _ | .complex | .object _ | .host _ => true
  | .tuple items => allPrintAlone items
  | _ => false

def allPrintAlone : List Value → Bool
  | [] => true
  | v :: rest => v.printsAlone && allPrintAlone rest

end

end Value

theorem Value.printsAlone_of_mem {items : List Value} {v : Value}
    (alone : allPrintAlone items = true) (member : v ∈ items) : v.printsAlone = true := by
  induction items with
  | nil => cases member
  | cons item rest ih =>
      rw [allPrintAlone, Bool.and_eq_true] at alone
      rcases List.mem_cons.mp member with rfl | later
      · exact alone.1
      · exact ih alone.2 later

namespace Store

theorem mapM_textWithin_congr {texts texts' : Value → Except Failure String} {items : List Value}
    (same : ∀ item ∈ items, texts item = texts' item) : items.mapM texts = items.mapM texts' := by
  induction items with
  | nil => rfl
  | cons item rest ih =>
      rw [List.mapM_cons, List.mapM_cons, same item (by simp),
        ih fun x member => same x (by simp [member])]

theorem leafText_of_printsAlone (store other : Store) {quoted : Bool} {v : Value}
    (alone : v.printsAlone = true) (leaf : ∀ items, v ≠ .tuple items) :
    store.leafText quoted v = other.leafText quoted v := by
  cases v with
  | null | bool | number | string | host => rfl
  | complex | object =>
      simp only [leafText, literal]
      generalize depthLimits.values = depth
      cases depth <;> simp only [literalWithin]
  | tuple items => exact absurd rfl (leaf items)
  | array | map | library | form | closure | bound | sequence => cases alone

theorem textWithin_of_printsAlone (store other : Store) {quoted : Bool} {v : Value} {depth : Nat}
    (alone : v.printsAlone = true) :
    store.textWithin store.leafText depth quoted v =
      other.textWithin other.leafText depth quoted v := by
  induction depth generalizing quoted v with
  | zero => simp only [textWithin]
  | succ depth ih =>
      cases v with
      | tuple items =>
          have parts : items.mapM (store.textWithin store.leafText depth true) =
              items.mapM (other.textWithin other.leafText depth true) :=
            mapM_textWithin_congr fun item member => ih (Value.printsAlone_of_mem alone member)
          simp only [textWithin, parts]
      | array | map => cases alone
      | _ =>
          simp only [textWithin]
          exact leafText_of_printsAlone store other alone nofun

end Store

namespace Server

/-! ## What others do to a response -/

section Reprinting
variable [DecidableEq Client]

/-- How the responses to a client are related when they are given at once, in a serial run, and when
they are given later: they are the same, unless they show a value that the store holds. Then the
later one may show the value as a later point of the serial run has it, at which the client has got
no other response. -/
inductive Reprints (start serial : Server Client) (client : Client) :
    List (Except Failure Response) → List (Except Failure Response) → Prop
  | nil : Reprints start serial client [] []
  | same {prompt late : List (Except Failure Response)}
      (earlier : Reprints start serial client prompt late) (response : Except Failure Response) :
      Reprints start serial client (prompt ++ [response]) (late ++ [response])
  | value {prompt late : List (Except Failure Response)} {middle later : Server Client} {v : Value}
      (earlier : Reprints start serial client prompt late) (stored : v.printsAlone = false)
      (before : start.SerialRun middle) (between : middle.SerialRun later)
      (after : later.SerialRun serial)
      (given : middle.responses client = prompt ++ [middle.session.answer (.ok (.value v))])
      (last : later.responses client = middle.responses client) :
      Reprints start serial client (prompt ++ [middle.session.answer (.ok (.value v))])
        (late ++ [later.session.answer (.ok (.value v))])

variable {start serial : Server Client} {client : Client}
  {prompt late : List (Except Failure Response)}

theorem Reprints.mono {further : Server Client} (reprints : Reprints start serial client prompt late)
    (run : serial.SerialRun further) : Reprints start further client prompt late := by
  induction reprints with
  | nil => exact .nil
  | same _ response ih => exact .same ih response
  | value _ stored before between after given last ih =>
      exact .value ih stored before between (after.trans run) given last

theorem Reprints.answer {middle later : Server Client} {outcome : Except Failure Pending}
    (earlier : Reprints start serial client prompt late) (before : start.SerialRun middle)
    (between : middle.SerialRun later) (after : later.SerialRun serial)
    (given : middle.responses client = prompt ++ [middle.session.answer outcome])
    (last : later.responses client = middle.responses client) :
    Reprints start serial client (prompt ++ [middle.session.answer outcome])
      (late ++ [later.session.answer outcome]) := by
  match outcome with
  | .error failure => exact .same earlier (.error failure)
  | .ok (.answered response) => exact .same earlier (.ok response)
  | .ok (.value v) =>
      cases stored : v.printsAlone with
      | false => exact .value earlier stored before between after given last
      | true =>
          have alike : middle.session.answer (.ok (.value v)) =
              later.session.answer (.ok (.value v)) :=
            congrArg (Except.map Response.result)
              (middle.session.store.textWithin_of_printsAlone later.session.store stored)
          rw [alike]
          exact .same earlier _

theorem Reprints.eq_of_alone (reprints : Reprints start serial client prompt late)
    (alone : ∀ other, other = client) : prompt = late := by
  induction reprints with
  | nil => rfl
  | same _ response ih => rw [ih]
  | value _ _ _ between _ _ last ih => rw [ih, between.eq_of_alone alone last]

end Reprinting

/-! ## Every run has a serial run beside it -/

section Accompanying
variable [DecidableEq Client]

/-- What a serial run has to do with the state of a client in another run. -/
inductive Progress (start serial : Server Client) (client : Client) :
    Option (Except Failure Pending) → List (Except Failure Response) → Prop
  | idle {late : List (Except Failure Response)}
      (reprints : Reprints start serial client (serial.responses client) late) :
      Progress start serial client none late
  | due {prompt late : List (Except Failure Response)} {outcome : Except Failure Pending}
      {middle : Server Client} (reprints : Reprints start serial client prompt late)
      (before : start.SerialRun middle) (since : middle.SerialRun serial)
      (given : middle.responses client = prompt ++ [middle.session.answer outcome])
      (last : serial.responses client = middle.responses client) :
      Progress start serial client (some outcome) late

theorem Progress.mono {start serial further : Server Client} {client : Client}
    {evaluated : Option (Except Failure Pending)} {late : List (Except Failure Response)}
    (progress : Progress start serial client evaluated late) (run : serial.SerialRun further)
    (same : further.responses client = serial.responses client) :
    Progress start further client evaluated late := by
  cases progress with
  | idle reprints =>
      refine .idle ?_
      rw [same]
      exact reprints.mono run
  | due reprints before since given last =>
      exact .due (reprints.mono run) before (since.trans run) given (same.trans last)

/-- A serial run has come as far as another run: each line that is evaluated there is handled
here. -/
structure Accompanies (start serial server : Server Client) : Prop where
  run : start.SerialRun serial
  session : serial.session = server.session
  waiting : serial.waiting = server.waiting
  idle : ∀ client, serial.evaluated client = none
  progress : ∀ client,
    Progress start serial client (server.evaluated client) (server.responses client)

namespace Accompanies
variable {start serial server : Server Client} {client : Client}

theorem opening (session : Session) (lines : Client → List (List UInt8)) :
    Accompanies (.opening session lines) (.opening session lines) (.opening session lines) where
  run := .refl
  session := rfl
  waiting := rfl
  idle _ := rfl
  progress _ := .idle .nil

theorem evaluate {line : List UInt8} {rest : List (List UInt8)}
    (accompanies : Accompanies start serial server) (next : server.waiting client = line :: rest)
    (free : server.evaluated client = none)
    (followed : Followed (server.session.handleRequest line)) :
    Accompanies start (serial.handle client line rest) (server.evaluate client line rest) := by
  have handled : serial.SerialRun (serial.handle client line rest) :=
    .single (.handle (accompanies.waiting ▸ next) (accompanies.idle client)
      (accompanies.session ▸ followed))
  have session : (serial.handle client line rest).session =
      (server.evaluate client line rest).session := by
    rw [handle, Session.handleRequest_eq_steps, accompanies.session]
    rfl
  refine ⟨accompanies.run.trans handled, session, ?_, accompanies.idle, fun other => ?_⟩
  · rw [handle, accompanies.waiting]
    rfl
  have progress := accompanies.progress other
  -- The client's response is given here and due there; those of the other clients stay.
  by_cases same : other = client
  · subst same
    have given : (serial.handle other line rest).responses other = serial.responses other ++
        [(serial.handle other line rest).session.answer
          (server.session.evaluateLine line).1] := by
      simp only [handle, Function.update_self, Session.handleRequest_eq_steps,
        accompanies.session]
    rw [free] at progress
    simp only [Server.evaluate, Function.update_self]
    cases progress with
    | idle reprints =>
        exact .due (reprints.mono handled) (accompanies.run.trans handled) .refl given rfl
  · simp only [Server.evaluate, Function.update_of_ne same]
    exact progress.mono handled (Function.update_of_ne same ..)

theorem answer {outcome : Except Failure Pending} (accompanies : Accompanies start serial server)
    (due : server.evaluated client = some outcome) :
    Accompanies start serial (server.answer client outcome) where
  run := accompanies.run
  session := accompanies.session
  waiting := accompanies.waiting
  idle := accompanies.idle
  progress other := by
    have progress := accompanies.progress other
    by_cases same : other = client
    · subst same
      simp only [Server.answer, Function.update_self]
      rw [due] at progress
      cases progress with
      | due reprints before since given last =>
          -- The serial run stands still: its response was given when the line was evaluated.
          refine .idle ?_
          rw [last, given, ← accompanies.session]
          exact reprints.answer before since .refl given last
    · simpa only [Server.answer, Function.update_of_ne same] using progress

theorem step {after : Server Client} (accompanies : Accompanies start serial server)
    (step : Step server after) : ∃ serial', Accompanies start serial' after := by
  cases step with
  | evaluate next free followed => exact ⟨_, accompanies.evaluate next free followed⟩
  | answer due => exact ⟨serial, accompanies.answer due⟩

end Accompanies

theorem exists_accompanies {session : Session} {lines : Client → List (List UInt8)}
    {final : Server Client} (run : (opening session lines).Run final) :
    ∃ serial, Accompanies (opening session lines) serial final := by
  induction run with
  | refl => exact ⟨_, .opening session lines⟩
  | tail _ step ih =>
      obtain ⟨serial, accompanies⟩ := ih
      exact accompanies.step step

/-- A serial run handles the lines that another run evaluates, with the same effect. -/
structure Serializes (start serial final : Server Client) : Prop where
  run : start.SerialRun serial
  session : serial.session = final.session
  waiting : serial.waiting = final.waiting
  responses : ∀ client, final.evaluated client = none →
    Reprints start serial client (serial.responses client) (final.responses client)
  alone : ∀ client, final.evaluated client = none → (∀ other, other = client) →
    serial.responses client = final.responses client

theorem exists_serializes {session : Session} {lines : Client → List (List UInt8)}
    {final : Server Client} (run : (opening session lines).Run final) :
    ∃ serial, Serializes (opening session lines) serial final := by
  obtain ⟨serial, accompanies⟩ := exists_accompanies run
  have responses (client : Client) (free : final.evaluated client = none) :
      Reprints (opening session lines) serial client (serial.responses client)
        (final.responses client) := by
    have progress := accompanies.progress client
    rw [free] at progress
    cases progress with
    | idle reprints => exact reprints
  exact ⟨serial, accompanies.run, accompanies.session, accompanies.waiting, responses,
    fun client free alone => (responses client free).eq_of_alone alone⟩

end Accompanying

/-! ## A response that shows what another client did -/

def evaluationLine (code : String) : List UInt8 :=
  Text.encode ("\x7b\"cmd\": \"eval\", \"code\": \"" ++ code ++ "\"\x7d").toList

def sharedArray : Session := ((Session.start .empty [] [] .system).evaluate "(def $a [0])").2

def settingOne : List UInt8 := evaluationLine "(set $a 0 1)"

def settingTwo : List UInt8 := evaluationLine "(set $a 0 2)"

def rivals : Bool → List (List UInt8)
  | true => [settingOne]
  | false => [settingTwo]

/-- Both lines are evaluated before the first of them gets its response. -/
def overtaken : Server Bool :=
  let first := sharedArray.evaluateLine settingOne
  let second := first.2.evaluateLine settingTwo
  ((((opening sharedArray rivals).evaluate true settingOne []).evaluate false settingTwo []).answer
    true first.1).answer false second.1

theorem run_overtaken : (opening sharedArray rivals).Run overtaken :=
  (((ReflTransGen.single (.evaluate rfl rfl ⟨by decide +kernel, by decide +kernel⟩)).tail
    (.evaluate rfl rfl ⟨by decide +kernel, by decide +kernel⟩)).tail
      (.answer rfl (by decide +kernel))).tail (.answer rfl (by decide +kernel))

theorem overtaken_serializes : (opening sharedArray rivals).Run overtaken ∧
    ∃ serial, Serializes (opening sharedArray rivals) serial overtaken :=
  ⟨run_overtaken, exists_serializes run_overtaken⟩

/-- The client that sets the element to one sees it set to one, whether it comes first or second. -/
theorem responses_of_serialRun {serial : Server Bool}
    (run : (opening sharedArray rivals).SerialRun serial) :
    (serial.waiting true = [settingOne] ∧ serial.responses true = [] ∧
        (serial.session = sharedArray ∧ serial.waiting false = [settingTwo] ∨
          serial.session = (sharedArray.handleRequest settingTwo).2 ∧ serial.waiting false = [])) ∨
      serial.waiting true = [] ∧
        (serial.responses true).map Except.toOption = [some (.result "[1]")] := by
  have early : (sharedArray.handleRequest settingOne).1.toOption = some (.result "[1]") := by
    decide +kernel
  have late : ((sharedArray.handleRequest settingTwo).2.handleRequest settingOne).1.toOption =
      some (.result "[1]") := by
    decide +kernel
  -- The other client is before or behind, or has not had its turn.
  induction run with
  | refl => exact .inl ⟨rfl, rfl, .inl ⟨rfl, rfl⟩⟩
  | tail _ step ih =>
      cases step with
      | @handle client line rest next free =>
          cases client with
          | true =>
              rcases ih with ⟨waiting, silent, order⟩ | ⟨waiting, _⟩
              · obtain ⟨rfl, rfl⟩ := List.cons.inj (waiting.symm.trans next)
                refine .inr ⟨rfl, ?_⟩
                rcases order with ⟨session, _⟩ | ⟨session, _⟩
                · simp [handle, silent, session, early]
                · simp [handle, silent, session, late]
              · cases waiting.symm.trans next
          | false =>
              have other : true ≠ false := nofun
              simp only [handle, Function.update_of_ne other, Function.update_self]
              rcases ih with ⟨waiting, silent, ⟨session, pending⟩ | ⟨_, done⟩⟩ | finished
              · obtain ⟨rfl, rfl⟩ := List.cons.inj (pending.symm.trans next)
                exact .inl ⟨waiting, silent, .inr ⟨by rw [session], rfl⟩⟩
              · cases done.symm.trans next
              · exact .inr finished

theorem lateResponse_unserializable :
    ¬∀ (Client : Type) [DecidableEq Client] (session : Session)
      (lines : Client → List (List UInt8)) (final : Server Client),
      (opening session lines).Run final →
      (∀ client, final.waiting client = [] ∧ final.evaluated client = none) →
        ∃ serial, (opening session lines).SerialRun serial ∧
          (∀ client, serial.waiting client = []) ∧ serial.responses = final.responses := by
  intro serializable
  have finished : ∀ client,
      overtaken.waiting client = [] ∧ overtaken.evaluated client = none := by
    intro client
    cases client <;> exact ⟨rfl, rfl⟩
  obtain ⟨serial, run, handled, same⟩ :=
    serializable Bool sharedArray rivals overtaken run_overtaken finished
  have shown : (overtaken.responses true).map Except.toOption = [some (.result "[2]")] := by
    decide +kernel
  rcases responses_of_serialRun run with ⟨waiting, _⟩ | ⟨_, own⟩
  · cases waiting.symm.trans (handled true)
  · rw [same, shown] at own
    exact absurd own (by decide)

end Server

end ShellLisp
