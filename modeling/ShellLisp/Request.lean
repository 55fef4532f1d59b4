import ShellLisp.Json.Reader
import ShellLisp.Json.Writer
import ShellLisp.Session.Start
import ShellLisp.Store.Printer
import ShellLisp.Text.Utf8

/-!
# Requests

A session that is served over a stream of bytes. Each line is a request in JSON and gets a response
in JSON on a line of its own. A request is handled in two steps: its code is evaluated, and then the
value is printed as it is at that later moment.
-/

namespace ShellLisp

inductive Request
  /-- Nothing that can be done, for the reason given. -/
  | refused (reason : String)
  | evaluation (code : String)
  deriving DecidableEq, Repr

inductive Response
  | result (text : String)
  | failure (reason : String)
  deriving DecidableEq, Repr

namespace Request

def decode (bytes : List UInt8) : Except Failure (Except String Json) :=
  match Text.decode bytes with
  | .error fault => .ok (.error fault.text)
  | .ok text =>
      match Json.readText text with
      | .ok data => .ok (.ok data)
      | .error (.malformed complaint) =>
          let position := Json.positionOf text complaint.rest
          .ok (.error (complaint.reason ++ ": line " ++ toString position.line ++ " column " ++
            toString position.column ++ " (char " ++ toString position.offset ++ ")"))
      | .error (.fault fault) => .error (.fault fault)
      | .error .tooDeep => .error .tooDeep

/-- The value under a name in an object; null when it is not there. -/
def field (data : Json) (name : String) : Json :=
  match data with
  | .object entries => (entries.lookup name).getD .null
  | _ => .null

def shown (data : Json) : Except Failure String :=
  let (value, store) := Store.empty.ofJson data
  store.shown value

def ofJson (data : Json) : Except Failure Request := do
  match field data "cmd" with
  | .string "eval" =>
      match data with
      | .object entries =>
          match entries.lookup "code" with
          | none => return .evaluation ""
          | some (.string code) => return .evaluation code
          | some _ => return .refused "code must be a string"
      | _ => return .refused "code must be a string"
  | command => return .refused ("Unknown cmd: " ++ (← shown command))

def read (bytes : List UInt8) : Except Failure Request := do
  match ← decode bytes with
  | .error reason => return .refused ("Invalid request: " ++ reason)
  | .ok data => ofJson data

end Request

namespace Response

def json : Response → Json
  | .result text => .object [("ok", .bool true), ("result", .string text)]
  | .failure reason => .object [("ok", .bool false), ("error", .string reason)]

def line (response : Response) : Except Failure (List UInt8) := do
  let text ← Failure.lift response.json.text
  return Text.encode (text ++ "\n").toList

end Response

/-- What is known of a request whose code has been evaluated. -/
inductive Pending
  | value (value : Value)
  | answered (response : Response)

namespace Session

/-- The first step of a request: its code is evaluated. -/
def accept (session : Session) (request : Request) : Except Failure Pending × Session :=
  match request with
  | .refused reason => (.ok (.answered (.failure reason)), session)
  | .evaluation code =>
      match session.evaluate code with
      | (.ok value, after) => (.ok (.value value), after)
      | (.error (.problem problem), after) => (.ok (.answered (.failure problem.text)), after)
      | (.error failure, after) => (.error failure, after)

/-- The second step of a request: the value is printed. -/
def respond (session : Session) (pending : Pending) : Except Failure Response :=
  match pending with
  | .answered response => .ok response
  | .value value => (session.store.text true value).map .result

def handleRequest (session : Session) (bytes : List UInt8) : Except Failure Response × Session :=
  match Request.read bytes with
  | .error failure => (.error failure, session)
  | .ok request =>
      match session.accept request with
      | (.error failure, after) => (.error failure, after)
      | (.ok pending, after) => (after.respond pending, after)

end Session

/-- A connection: what was received and sent, the session, and the failure that ended it, if one
did. -/
structure Connection where
  /-- The bytes that are not yet part of a whole line. -/
  buffer : List UInt8
  sent : List UInt8
  session : Session
  failure : Option Failure

namespace Connection

def start (session : Session) : Connection := ⟨[], [], session, none⟩

def newline : UInt8 := 10

def isBlankByte (byte : UInt8) : Bool := (9 ≤ byte && byte ≤ 13) || byte == 32

def trimBytes (line : List UInt8) : List UInt8 :=
  ((line.dropWhile isBlankByte).reverse.dropWhile isBlankByte).reverse

/-- The bytes before and after the first newline, if there is one. -/
def cutLine? : List UInt8 → Option (List UInt8 × List UInt8)
  | [] => none
  | byte :: rest =>
      if byte = newline then some ([], rest)
      else (cutLine? rest).map fun (line, beyond) => (byte :: line, beyond)

/-- A connection after a whole line: a blank line gets no response. -/
def serveLine (connection : Connection) (line : List UInt8) : Connection :=
  let request := trimBytes line
  if request.isEmpty then connection
  else
    let (result, session) := connection.session.handleRequest request
    match result.bind Response.line with
    | .ok bytes => { connection with session, sent := connection.sent ++ bytes }
    | .error failure => { connection with session, failure := some failure }

theorem cutLine?_eq_some {bytes line rest : List UInt8} (cut : cutLine? bytes = some (line, rest)) :
    newline ∉ line ∧ bytes = line ++ newline :: rest := by
  induction bytes generalizing line with
  | nil => cases cut
  | cons byte later ih =>
      unfold cutLine? at cut
      split at cut
      · rename_i same
        cases cut
        exact ⟨List.not_mem_nil, by rw [same]; rfl⟩
      · rename_i other
        obtain ⟨⟨inner, beyond⟩, found, same⟩ := Option.map_eq_some_iff.mp cut
        cases same
        obtain ⟨unbroken, rfl⟩ := ih found
        exact ⟨by simp [Ne.symm other, unbroken], rfl⟩

theorem length_of_cutLine? {bytes line rest : List UInt8}
    (cut : cutLine? bytes = some (line, rest)) : rest.length < bytes.length := by
  rw [(cutLine?_eq_some cut).2, List.length_append, List.length_cons]
  omega

theorem serveLine_buffer (connection : Connection) (line : List UInt8) :
    (connection.serveLine line).buffer = connection.buffer := by
  unfold serveLine
  dsimp only
  split
  · rfl
  · split <;> rfl

/-- A connection after the whole lines of its buffer, served one by one until one fails. -/
def serveLines (connection : Connection) : Connection :=
  match cut : cutLine? connection.buffer with
  | none => connection
  | some (line, rest) =>
      have := length_of_cutLine? cut
      let served := { connection with buffer := rest }.serveLine line
      if served.failure.isSome then served else served.serveLines
termination_by connection.buffer.length
decreasing_by simpa only [serveLine_buffer]

def holding (connection : Connection) (chunk : List UInt8) : Connection :=
  { connection with buffer := connection.buffer ++ chunk }

def receive (connection : Connection) (chunk : List UInt8) : Connection :=
  (connection.holding chunk).serveLines

/-- A connection after chunks; an empty chunk ends it, as a failure does. -/
def receiveAll (connection : Connection) : List (List UInt8) → Connection
  | [] => connection
  | chunk :: rest =>
      if chunk.isEmpty then connection
      else
        let after := connection.receive chunk
        if after.failure.isSome then after else after.receiveAll rest

end Connection

end ShellLisp
