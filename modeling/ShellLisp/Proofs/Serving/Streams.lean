import ShellLisp.Process.Program
import ShellLisp.Request

/-!
# Serving a stream

A connection answers the whole lines of what it receives, one by one, in the session that the lines
before left. How the stream is cut into chunks makes no difference, even where a chunk ends inside a
character or a line.
-/

namespace ShellLisp

/-! ## Responses -/

namespace Json

def isWritten (c : Char) : Bool := ' ' ≤ c && c ≤ '~'

theorem isWritten_digitChar : ∀ n < 16, isWritten n.digitChar = true := by decide

theorem isWritten_of_mem_toDigits {n : Nat} {c : Char} (member : c ∈ Nat.toDigits 16 n) :
    isWritten c = true := by
  induction n using Nat.strongRecOn with
  | ind n ih =>
      rw [Nat.toDigits_eq_if (by decide)] at member
      split at member
      · rename_i small
        rw [List.mem_singleton.mp member]
        exact isWritten_digitChar n small
      · rcases List.mem_append.mp member with before | last
        · exact ih (n / 16) (by omega) before
        · rw [List.mem_singleton.mp last]
          exact isWritten_digitChar _ (Nat.mod_lt n (by decide))

theorem isWritten_codeEscape {n : Nat} {c : Char} (member : c ∈ codeEscape n) :
    isWritten c = true := by
  simp only [codeEscape, Text.hexadecimal, List.mem_cons, List.mem_append] at member
  rcases member with rfl | rfl | zero | digit
  · decide
  · decide
  · rw [List.eq_of_mem_replicate zero]
    decide
  · exact isWritten_of_mem_toDigits digit

theorem isWritten_escapeChar {c written : Char} (member : written ∈ escapeChar c) :
    isWritten written = true := by
  have among {characters : List Char} (all : characters.all isWritten = true)
      (member : written ∈ characters) : isWritten written = true :=
    List.all_eq_true.mp all written member
  unfold escapeChar at member
  -- Seven characters have an escape of their own.
  iterate 7
    split at member
    · exact among (by decide) member
  split at member
  · rename_i printed
    rw [List.mem_singleton.mp member]
    simp [isWritten, printed]
  split at member
  · exact isWritten_codeEscape member
  · rcases List.mem_append.mp member with first | second
    · exact isWritten_codeEscape first
    · exact isWritten_codeEscape second

def Written (text : String) : Prop := ∀ c ∈ text.toList, isWritten c = true

theorem Written.append {first second : String} (left : Written first) (right : Written second) :
    Written (first ++ second) := by
  intro c member
  rw [String.toList_append] at member
  exact (List.mem_append.mp member).elim (left c) (right c)

theorem Written.fixed {text : String} (all : text.toList.all isWritten = true) : Written text :=
  List.all_eq_true.mp all

theorem written_quoted (text : String) : Written (quoted text) := by
  intro c member
  rw [quoted, String.toList_ofList] at member
  simp only [List.cons_append, List.mem_cons, List.mem_append, List.mem_flatMap,
    List.not_mem_nil, or_false] at member
  rcases member with rfl | ⟨original, -, escaped⟩ | rfl
  · decide
  · exact isWritten_escapeChar escaped
  · decide

theorem written_entryText (key : String) {value : String} (written : Written value) :
    Written (entryText key value) :=
  ((written_quoted key).append (.fixed (by decide))).append written

end Json

/-- The JSON text of a response can always be written, in printed characters of ASCII. -/
theorem Response.exists_text (response : Response) :
    ∃ text, response.json.text = .ok text ∧ Json.Written text := by
  have row {first second : String} (left : Json.Written first) (right : Json.Written second) :
      Json.Written ("\x7b" ++ (first ++ ", " ++ second) ++ "\x7d") :=
    (Json.Written.append (.fixed (by decide)) ((left.append (.fixed (by decide))).append right)).append
      (.fixed (by decide))
  have truth (b : Bool) : Json.Written (if b then "true" else "false") := by
    cases b <;> exact .fixed (by decide)
  cases response with
  | result text =>
      exact ⟨_, rfl, row (Json.written_entryText "ok" (truth true))
        (Json.written_entryText "result" (Json.written_quoted text))⟩
  | failure reason =>
      exact ⟨_, rfl, row (Json.written_entryText "ok" (truth false))
        (Json.written_entryText "error" (Json.written_quoted reason))⟩

namespace Connection

variable {connection : Connection} {bytes line rest : List UInt8}

/-- What can be seen of a connection: what it sent, its session, and how it ended. -/
def served (connection : Connection) : List UInt8 × Session × Option Failure :=
  (connection.sent, connection.session, connection.failure)

/-! ## Lines -/

theorem cutLine?_eq_none (uncut : cutLine? bytes = none) : newline ∉ bytes := by
  induction bytes with
  | nil => exact List.not_mem_nil
  | cons byte rest ih =>
      unfold cutLine? at uncut
      split at uncut
      · cases uncut
      · rename_i other
        exact List.not_mem_cons_of_ne_of_not_mem (Ne.symm other) (ih (Option.map_eq_none_iff.mp uncut))

theorem cutLine?_of_unbroken (unbroken : newline ∉ bytes) : cutLine? bytes = none := by
  cases cut : cutLine? bytes with
  | none => rfl
  | some parts =>
      rw [(cutLine?_eq_some cut).2] at unbroken
      simp at unbroken

theorem cutLine?_append (cut : cutLine? bytes = some (line, rest)) (more : List UInt8) :
    cutLine? (bytes ++ more) = some (line, rest ++ more) := by
  induction bytes generalizing line with
  | nil => cases cut
  | cons byte later ih =>
      unfold cutLine? at cut
      rw [List.cons_append, cutLine?]
      split at cut
      · rename_i same
        cases cut
        rw [if_pos same]
      · rename_i other
        obtain ⟨⟨inner, beyond⟩, found, same⟩ := Option.map_eq_some_iff.mp cut
        cases same
        rw [if_neg other, ih found]
        rfl

/-- The requests of a stream: its whole lines without the white space around them, blank ones left
out. -/
def requestLines (stream : List UInt8) : List (List UInt8) :=
  ((stream.splitOn newline).dropLast.map trimBytes).filter (!·.isEmpty)

theorem requestLines_of_unbroken (unbroken : newline ∉ bytes) : requestLines bytes = [] := by
  rw [requestLines, List.splitOn_eq_singleton unbroken]
  rfl

theorem requestLines_of_cut (cut : cutLine? bytes = some (line, rest)) :
    requestLines bytes =
      if (trimBytes line).isEmpty then requestLines rest
      else trimBytes line :: requestLines rest := by
  obtain ⟨unbroken, rfl⟩ := cutLine?_eq_some cut
  rw [requestLines, List.splitOn_append_cons_self_of_not_mem unbroken,
    List.dropLast_cons_of_ne_nil (List.splitOn_ne_nil _ _), List.map_cons, List.filter_cons]
  cases (trimBytes line).isEmpty <;> rfl

/-! ## Serving the lines of a buffer -/

theorem serveLines_of_uncut (uncut : cutLine? connection.buffer = none) :
    connection.serveLines = connection := by
  rw [serveLines]
  split
  · rfl
  · rename_i cut
    rw [uncut] at cut
    cases cut

def afterLine (connection : Connection) (line rest : List UInt8) : Connection :=
  { connection with buffer := rest }.serveLine line

theorem buffer_afterLine (connection : Connection) (line rest : List UInt8) :
    (connection.afterLine line rest).buffer = rest := serveLine_buffer _ _

theorem serveLines_of_cut (cut : cutLine? connection.buffer = some (line, rest)) :
    connection.serveLines =
      if (connection.afterLine line rest).failure.isSome then connection.afterLine line rest
      else (connection.afterLine line rest).serveLines := by
  rw [serveLines]
  split
  · rename_i uncut
    rw [uncut] at cut
    cases cut
  · rename_i found
    rw [cut] at found
    cases found
    rfl

theorem serveLines_of_failed (cut : cutLine? connection.buffer = some (line, rest))
    {failure : Failure} (failed : (connection.afterLine line rest).failure = some failure) :
    connection.serveLines = connection.afterLine line rest := by
  rw [serveLines_of_cut cut, failed]
  rfl

theorem serveLines_of_going (cut : cutLine? connection.buffer = some (line, rest))
    (going : (connection.afterLine line rest).failure = none) :
    connection.serveLines = (connection.afterLine line rest).serveLines := by
  rw [serveLines_of_cut cut, going]
  rfl

/-- Induction along the whole lines of a buffer, up to one that fails. -/
theorem serveLines_induction {motive : Connection → Prop}
    (uncut : ∀ connection, cutLine? connection.buffer = none → motive connection)
    (failed : ∀ connection line rest failure, cutLine? connection.buffer = some (line, rest) →
      (connection.afterLine line rest).failure = some failure → motive connection)
    (going : ∀ connection line rest, cutLine? connection.buffer = some (line, rest) →
      (connection.afterLine line rest).failure = none →
        motive (connection.afterLine line rest) → motive connection)
    (connection : Connection) : motive connection := by
  induction connection using serveLines.induct with
  | case1 connection found => exact uncut connection found
  | case2 connection line rest cut _ _ ended =>
      obtain ⟨failure, failure_eq⟩ := Option.isSome_iff_exists.mp ended
      exact failed connection line rest failure cut failure_eq
  | case3 connection line rest cut _ _ ended ih =>
      exact going connection line rest cut (Option.not_isSome_iff_eq_none.mp ended) ih

theorem afterLine_holding (connection : Connection) (line rest more : List UInt8) :
    (connection.holding more).afterLine line (rest ++ more) =
      (connection.afterLine line rest).holding more := by
  unfold afterLine serveLine holding
  dsimp only
  split
  · rfl
  · split <;> rfl

theorem holding_holding (connection : Connection) (first second : List UInt8) :
    (connection.holding first).holding second = connection.holding (first ++ second) := by
  simp [holding]

/-- Bytes that come later are served as if they had been there before. -/
theorem serveLines_holding (going : connection.failure = none) (more : List UInt8) :
    (connection.holding more).serveLines =
      if connection.serveLines.failure.isSome then connection.serveLines.holding more
      else (connection.serveLines.holding more).serveLines := by
  have later {connection : Connection} {line rest : List UInt8}
      (cut : cutLine? connection.buffer = some (line, rest)) :
      cutLine? (connection.holding more).buffer = some (line, rest ++ more) :=
    cutLine?_append cut more
  induction connection using serveLines_induction with
  | uncut connection uncut =>
      rw [serveLines_of_uncut uncut, going]
      rfl
  | failed connection line rest failure cut ended =>
      have same := connection.afterLine_holding line rest more
      rw [serveLines_of_failed cut ended, ended,
        serveLines_of_failed (later cut) (by rw [same]; exact ended), same]
      rfl
  | going connection line rest cut ended ih =>
      have same := connection.afterLine_holding line rest more
      rw [serveLines_of_going cut ended,
        serveLines_of_going (later cut) (by rw [same]; exact ended), same]
      exact ih ended

theorem serveLines_settled (finished : connection.serveLines.failure = none) :
    cutLine? connection.serveLines.buffer = none := by
  induction connection using serveLines_induction with
  | uncut connection uncut => rwa [serveLines_of_uncut uncut]
  | failed connection line rest failure cut ended =>
      rw [serveLines_of_failed cut ended, ended] at finished
      cases finished
  | going connection line rest cut ended ih =>
      rw [serveLines_of_going cut ended] at finished ⊢
      exact ih finished

/-! ## Chunks -/

/-- A stream in chunks is served as the whole stream at once. -/
theorem served_receiveAll {chunks : List (List UInt8)} (filled : ∀ chunk ∈ chunks, chunk ≠ [])
    (going : connection.failure = none) (settled : cutLine? connection.buffer = none) :
    (connection.receiveAll chunks).served = (connection.receive chunks.flatten).served := by
  induction chunks generalizing connection with
  | nil =>
      have nothing : connection.holding [] = connection := by simp [holding]
      rw [receiveAll, List.flatten_nil, receive, nothing, serveLines_of_uncut settled]
  | cons chunk rest ih =>
      obtain ⟨some, others⟩ := List.forall_mem_cons.mp filled
      rw [receiveAll, if_neg (by simpa using some), List.flatten_cons]
      -- The lines that the chunk completes come before everything in the rest of the stream.
      have whole : connection.receive (chunk ++ rest.flatten) =
          if (connection.receive chunk).failure.isSome then
            (connection.receive chunk).holding rest.flatten
          else (connection.receive chunk).receive rest.flatten := by
        rw [receive, ← holding_holding]
        have unfailed : (connection.holding chunk).failure = none := going
        exact serveLines_holding unfailed rest.flatten
      rw [whole]
      dsimp only
      cases failed : (connection.receive chunk).failure with
      | some failure => rfl
      | none => exact ih others failed (serveLines_settled failed)

theorem served_receive_append (going : connection.failure = none) (bytes : List UInt8)
    {tail : List UInt8} (unbroken : newline ∉ tail) :
    (connection.receive (bytes ++ tail)).served = (connection.receive bytes).served := by
  have unfailed : (connection.holding bytes).failure = none := going
  rw [receive, ← holding_holding, serveLines_holding unfailed]
  cases ended : (connection.holding bytes).serveLines.failure with
  | some failure => rfl
  | none =>
      have settled := cutLine?_eq_none (serveLines_settled ended)
      have uncut : cutLine? ((connection.holding bytes).serveLines.holding tail).buffer = none := by
        refine cutLine?_of_unbroken fun member => ?_
        exact (List.mem_append.mp member).elim settled unbroken
      rw [if_neg (by simp), serveLines_of_uncut uncut]
      rfl

/-! ## Answers -/

theorem newline_not_mem_encode {text : String} (written : Json.Written text) :
    newline ∉ Text.encode text.toList := by
  intro member
  obtain ⟨c, inside, coded⟩ := List.mem_flatMap.mp member
  have printed := written c inside
  simp only [Json.isWritten, Bool.and_eq_true, decide_eq_true_eq, Char.le_def,
    UInt32.le_iff_toNat_le] at printed
  have low : 32 ≤ c.toNat := printed.1
  have high : c.toNat ≤ 126 := printed.2
  rw [Text.encodeChar, if_pos (by omega), List.mem_singleton, newline] at coded
  have code := congrArg UInt8.toNat coded
  rw [UInt8.toNat_ofNat'] at code
  have ten : (10 : UInt8).toNat = 10 := rfl
  omega

theorem line_of_text {response : Response} {text : String} (made : response.json.text = .ok text) :
    response.line = .ok (Text.encode text.toList ++ [newline]) := by
  have last : Text.encode ['\n'] = [newline] := rfl
  rw [Response.line, made]
  show Except.ok (Text.encode (text ++ "\n").toList) = _
  rw [String.toList_append, Text.encode, List.flatMap_append]
  exact congrArg (fun bytes => Except.ok (Text.encode text.toList ++ bytes)) last

/-- Requests that are answered one after the other, each in the session that the one before it left,
and the JSON texts of the responses. -/
inductive Answered : Session → List (List UInt8) → List (List UInt8) → Session → Prop
  | nil (session : Session) : Answered session [] [] session
  | cons {session middle last : Session} {request : List UInt8} {response : Response}
      {text : String} {requests texts : List (List UInt8)}
      (handled : session.handleRequest request = (.ok response, middle))
      (written : response.json.text = .ok text) (others : Answered middle requests texts last) :
      Answered session (request :: requests) (Text.encode text.toList :: texts) last

theorem serveLine_of_blank (blank : (trimBytes line).isEmpty = true) :
    connection.serveLine line = connection := by
  rw [serveLine]
  dsimp only
  rw [if_pos blank]

/-- A line that is not blank is answered by a line, or ends the connection. -/
theorem serveLine_outcome (connection : Connection) (filled : (trimBytes line).isEmpty = false) :
    (∃ response text session,
        connection.session.handleRequest (trimBytes line) = (.ok response, session) ∧
          response.json.text = .ok text ∧ newline ∉ Text.encode text.toList ∧
          connection.serveLine line = { connection with
            session, sent := connection.sent ++ (Text.encode text.toList ++ [newline]) }) ∨
      ∃ failure, (connection.serveLine line).failure = some failure := by
  rw [serveLine]
  dsimp only
  rw [if_neg (by simp [filled])]
  cases handled : connection.session.handleRequest (trimBytes line) with
  | mk result session =>
      cases result with
      | error failure => exact .inr ⟨failure, rfl⟩
      | ok response =>
          obtain ⟨text, made, written⟩ := response.exists_text
          refine .inl ⟨response, text, session, rfl, made, newline_not_mem_encode written, ?_⟩
          have sent : (Except.ok response : Except Failure Response).bind Response.line = _ :=
            line_of_text made
          simp only [sent]

theorem answered_serveLines (going : connection.failure = none)
    (finished : connection.serveLines.failure = none) :
    ∃ texts, Answered connection.session (requestLines connection.buffer) texts
        connection.serveLines.session ∧
      connection.serveLines.sent = connection.sent ++ texts.flatMap (· ++ [newline]) ∧
      ∀ text ∈ texts, newline ∉ text := by
  induction connection using serveLines_induction with
  | uncut connection uncut =>
      rw [serveLines_of_uncut uncut, requestLines_of_unbroken (cutLine?_eq_none uncut)]
      exact ⟨[], .nil _, (List.append_nil _).symm, nofun⟩
  | failed connection line rest failure cut ended =>
      rw [serveLines_of_failed cut ended, ended] at finished
      cases finished
  | going connection line rest cut ended ih =>
      rw [serveLines_of_going cut ended] at finished ⊢
      obtain ⟨texts, answered, sent, unbroken⟩ := ih ended finished
      rw [buffer_afterLine] at answered
      rw [requestLines_of_cut cut]
      cases blank : (trimBytes line).isEmpty with
      | true =>
          have same : connection.afterLine line rest = { connection with buffer := rest } :=
            serveLine_of_blank blank
          rw [same] at answered sent ⊢
          exact ⟨texts, answered, sent, unbroken⟩
      | false =>
          -- The line did not end the connection, so it got a response: the text before the others.
          rcases serveLine_outcome { connection with buffer := rest } blank with
            ⟨response, text, session, handled, made, unbrokenText, same⟩ | ⟨failure, failed⟩
          · have next : connection.afterLine line rest = _ := same
            rw [next] at answered sent ⊢
            refine ⟨_ :: texts, .cons handled made answered, ?_,
              List.forall_mem_cons.mpr ⟨unbrokenText, unbroken⟩⟩
            rw [sent, List.flatMap_cons, List.append_assoc]
          · rw [afterLine, failed] at ended
            cases ended

/-- How a connection that starts in a session serves a stream that comes in chunks. -/
structure ServesStream (session : Session) (chunks : List (List UInt8)) : Prop where
  /-- Other chunks of the same stream have the same effect. -/
  alike : ∀ others : List (List UInt8), (∀ chunk ∈ others, chunk ≠ []) →
    others.flatten = chunks.flatten →
      ((start session).receiveAll others).served = ((start session).receiveAll chunks).served
  /-- When nothing fails, each request gets a line in its turn. -/
  answered : ((start session).receiveAll chunks).failure = none → ∃ texts,
    Answered session (requestLines chunks.flatten) texts
        ((start session).receiveAll chunks).session ∧
      ((start session).receiveAll chunks).sent = texts.flatMap (· ++ [newline]) ∧
      ∀ text ∈ texts, newline ∉ text
  /-- What follows the last newline has no effect. -/
  unfinished : ∀ before tail, chunks.flatten = before ++ newline :: tail → newline ∉ tail →
    ((start session).receiveAll chunks).served =
      ((start session).receive (before ++ [newline])).served
  /-- Neither has a stream without a newline. -/
  silent : newline ∉ chunks.flatten →
    ((start session).receiveAll chunks).served = (start session).served

theorem receiveAll_serves (session : Session) {chunks : List (List UInt8)}
    (filled : ∀ chunk ∈ chunks, chunk ≠ []) : ServesStream session chunks := by
  have whole {pieces : List (List UInt8)} (filled : ∀ chunk ∈ pieces, chunk ≠ []) :
      ((start session).receiveAll pieces).served =
        ((start session).receive pieces.flatten).served := served_receiveAll filled rfl rfl
  refine ⟨fun others some same => ?_, fun finished => ?_, fun before tail same unbroken => ?_,
    fun unbroken => ?_⟩
  · rw [whole some, same, ← whole filled]
  · obtain ⟨sent, session', failed⟩ : _ = _ ∧ _ = _ ∧ _ = _ := by
      simpa [served] using whole filled
    rw [failed] at finished
    have going : ((start session).holding chunks.flatten).failure = none := rfl
    obtain ⟨texts, answered, sends, clean⟩ := answered_serveLines going finished
    exact ⟨texts, session' ▸ answered, sent.trans sends, clean⟩
  · have cut : chunks.flatten = (before ++ [newline]) ++ tail := by rw [same, List.append_assoc]; rfl
    rw [whole filled, cut]
    exact served_receive_append rfl _ unbroken
  · have uncut : cutLine? ((start session).holding chunks.flatten).buffer = none :=
      cutLine?_of_unbroken unbroken
    rw [whole filled, receive, serveLines_of_uncut uncut]
    rfl

theorem brokenRequest_served :
    ServesStream (.start .empty [] [] .system) [[0x7B], [0x22, 0xC3], [0xA9, 0x0A, 0x7D]] :=
  receiveAll_serves _ (by decide)

end Connection

end ShellLisp
