import ShellLisp.Proofs.Confinement.Actions
import ShellLisp.Proofs.Files.Encoding
import ShellLisp.Session.Start

/-!
# Texts in files

What calls write to a file is what a later call reads from it: the text that was written last with the
texts that were appended since, and only the line ends are not what they were. Carriage returns are
written as they are, but none is read.
-/

namespace ShellLisp

/-! ## Files that are there -/

namespace FileTree
variable {files : FileTree} {path : Path} {shown : String} {bytes : List UInt8}

theorem modify_of_read (there : files.read path shown = .ok bytes)
    (change : List UInt8 → List UInt8) : ∃ changed,
      files.modify path shown change = .ok changed ∧ changed.read path shown = .ok (change bytes) := by
  unfold read at there
  split at there
  · cases there
  · rename_i nameable
    split at there
    · rename_i held found
      cases there
      have below : path ≠ [] := by
        rintro rfl
        cases found
      have changed : files.modify path shown change = .ok (files.put path (.file (change bytes))) := by
        simp [modify, nameable, found]
      exact ⟨_, changed, by simp [read, nameable, find?_put_self files below]⟩
    · cases there
    · cases there

theorem below_of_modify {changed : FileTree} {change : List UInt8 → List UInt8}
    (done : files.modify path shown change = .ok changed) : path ≠ [] := by
  rintro rfl
  cases done

end FileTree

namespace Files

/-! ## Calls that write -/

/-- A call that writes a text to a file, either in place of what is there or behind it. -/
inductive Writing
  | write (text : String)
  | append (text : String)

namespace Writing

def text : Writing → String
  | .write text => text
  | .append text => text

def function : Writing → FileFunction
  | .write _ => .write
  | .append _ => .append

def call (engine : Engine) (place : Location) (path : String) (writing : Writing) : Eval Value :=
  LibraryFunction.call engine place [.string path, .string writing.text] (.file writing.function)

/-- The text of a file after a call, given the text before it. -/
def onto (held : String) : Writing → String
  | .write text => text
  | .append text => held ++ text

def callAll (engine : Engine) (path : String) (calls : List (Location × Writing)) :
    Eval (List Value) :=
  calls.mapM fun (place, writing) => writing.call engine place path

/-- The text of the last write with all that was appended since, given the text before the calls. -/
def allOnto (held : String) (calls : List (Location × Writing)) : String :=
  calls.foldl (fun held call => call.2.onto held) held

def change : Writing → List UInt8 → List UInt8
  | .write text => fun _ => Text.encode text.toList
  | .append text => (· ++ Text.encode text.toList)

theorem change_encode (writing : Writing) (held : String) :
    writing.change (Text.encode held.toList) = Text.encode (writing.onto held).toList := by
  cases writing with
  | write text => rfl
  | append text => rw [change, onto, String.toList_append, Text.encode_append]

end Writing

/-- The text as which a text in a file is read: with its line ends unified. -/
def unified (text : String) : String := String.ofList (Text.unifyNewlines text.toList)

theorem unified_eq_self_iff {text : String} : unified text = text ↔ '\r' ∉ text.toList := by
  constructor
  · intro same
    rw [← same, unified, String.toList_ofList]
    exact Text.carriageReturn_not_mem_unifyNewlines text.toList
  · intro free
    rw [unified, Text.unifyNewlines_eq_self free, String.ofList_toList]

variable {session after : Session} {path : String} {resolved : Path} {value : Value}

/-! ## One call -/

theorem nonEmptyString_of_filled (filled : path.isEmpty = false) (place : Location) :
    Arguments.nonEmptyString place (.string path) = return path := by
  rw [Arguments.nonEmptyString, if_neg (by simp [filled])]

theorem runOn_pathAndText (filled : path.isEmpty = false) (callee : String) (place : Location)
    (text : String) (session : Session) :
    (pathAndText callee place [.string path, .string text]).runOn session =
      (((session.resolve path).map (·, Text.encode text.toList)).mapError .fault, session) := by
  show Eval.runOn session (do
    let path ← resolve (← Arguments.nonEmptyString place (.string path))
    return (path, Text.encode text.toList)) = _
  rw [nonEmptyString_of_filled filled]
  show Eval.runOn session (do
    let path ← Eval.lift (session.resolve path)
    return (path, Text.encode text.toList)) = _
  cases session.resolve path <;> rfl

theorem runOn_change (step : FileTree → Except Fault FileTree) (session : Session) :
    (Files.change step).runOn session =
      match step session.files with
      | .ok files => (.ok (), { session with files })
      | .error fault => (.error (.fault fault), session) := by
  show (Eval.lift (step session.files) >>= _ : Eval Unit).runOn session = _
  cases step session.files <;> rfl

/-- Both ways of writing find out what the path means, and then change the bytes of the file there. -/
theorem Writing.call_eq (engine : Engine) (place : Location) (path : String) (writing : Writing) :
    ∃ (callee : String) (join : List UInt8 → List UInt8 → List UInt8),
      join (Text.encode writing.text.toList) = writing.change ∧
        writing.call engine place path = do
          let (path, bytes) ← pathAndText callee place [.string path, .string writing.text]
          Files.change fun files => files.modify path path.text (join bytes)
          return .string path.text := by
  cases writing with
  | write text => exact ⟨"write", fun bytes _ => bytes, rfl, rfl⟩
  | append text => exact ⟨"append", fun bytes held => held ++ bytes, rfl, rfl⟩

theorem Writing.runOn_call (filled : path.isEmpty = false) (engine : Engine) (place : Location)
    (writing : Writing) (session : Session) :
    (writing.call engine place path).runOn session =
      match session.resolve path with
      | .error fault => (.error (.fault fault), session)
      | .ok resolved =>
          match session.files.modify resolved resolved.text writing.change with
          | .error fault => (.error (.fault fault), session)
          | .ok files => (.ok (.string resolved.text), { session with files }) := by
  obtain ⟨callee, join, joins, same⟩ := writing.call_eq engine place path
  rw [same, Eval.runOn_bind, runOn_pathAndText filled]
  cases session.resolve path with
  | error fault => rfl
  | ok resolved =>
      show Eval.runOn session (do
        Files.change fun files =>
          files.modify resolved resolved.text (join (Text.encode writing.text.toList))
        return Value.string resolved.text) = _
      rw [joins, Eval.runOn_bind, runOn_change]
      dsimp only
      cases session.files.modify resolved resolved.text writing.change <;> rfl

theorem Writing.runOn_call_empty (empty : path.isEmpty = true) (engine : Engine) (place : Location)
    (writing : Writing) (session : Session) : (writing.call engine place path).runOn session =
      (.error (.at place .expectedNonEmptyString), session) := by
  have refused : Arguments.nonEmptyString place (.string path) =
      Eval.problem place .expectedNonEmptyString := by
    rw [Arguments.nonEmptyString, if_pos empty]
  obtain ⟨callee, join, -, same⟩ := writing.call_eq engine place path
  have paths : (pathAndText callee place [.string path, .string writing.text]).runOn session =
      (.error (.at place .expectedNonEmptyString), session) := by
    show Eval.runOn session (Arguments.nonEmptyString place (.string path) >>= _) = _
    rw [refused]
    rfl
  rw [same, Eval.runOn_bind_error paths]

/-! ## Calls in a row -/

structure Holds (session : Session) (path : String) (resolved : Path) (text : String) : Prop where
  filled : path.isEmpty = false
  found : session.resolve path = .ok resolved
  there : session.files.read resolved resolved.text = .ok (Text.encode text.toList)

namespace Holds
variable {text : String}

theorem of_accepted {engine : Engine} {place : Location}
    (accepted : ((Writing.write text).call engine place path).runOn session = (.ok value, after)) :
    ∃ resolved, value = .string resolved.text ∧ Holds after path resolved text := by
  cases filled : path.isEmpty with
  | true =>
      rw [Writing.runOn_call_empty filled] at accepted
      cases accepted
  | false =>
      rw [Writing.runOn_call filled] at accepted
      cases found : session.resolve path with
      | error fault =>
          rw [found] at accepted
          cases accepted
      | ok resolved =>
          rw [found] at accepted
          dsimp only at accepted
          cases done : session.files.modify resolved resolved.text (Writing.write text).change with
          | error fault =>
              rw [done] at accepted
              cases accepted
          | ok files =>
              rw [done] at accepted
              cases accepted
              exact ⟨resolved, rfl, filled, found,
                FileTree.read_of_write (FileTree.below_of_modify done) done⟩

theorem writing (holds : Holds session path resolved text) (engine : Engine) (place : Location)
    (writing : Writing) : ∃ after,
      (writing.call engine place path).runOn session = (.ok (.string resolved.text), after) ∧
        Holds after path resolved (writing.onto text) := by
  obtain ⟨files, changed, there⟩ := FileTree.modify_of_read holds.there writing.change
  rw [writing.change_encode] at there
  refine ⟨{ session with files }, ?_, holds.filled, holds.found, there⟩
  rw [Writing.runOn_call holds.filled, holds.found]
  dsimp only
  rw [changed]

theorem writings (holds : Holds session path resolved text) (engine : Engine)
    (calls : List (Location × Writing)) : ∃ last,
      (Writing.callAll engine path calls).runOn session =
          (.ok (calls.map fun _ => .string resolved.text), last) ∧
        Holds last path resolved (Writing.allOnto text calls) := by
  induction calls generalizing session text with
  | nil => exact ⟨session, rfl, holds⟩
  | cons first rest ih =>
      obtain ⟨between, run, holds⟩ := holds.writing engine first.1 first.2
      obtain ⟨last, runs, holds⟩ := ih holds
      refine ⟨last, ?_, holds⟩
      rw [Writing.callAll, List.mapM_cons, Eval.runOn_bind_ok run]
      exact Eval.runOn_bind_ok runs _

theorem reading (holds : Holds session path resolved text) (engine : Engine) (place : Location) :
    (LibraryFunction.call engine place [.string path] (.file .read)).runOn session =
      (.ok (.string (unified text)), session) := by
  have means : (onlyPath "read" place [.string path]).runOn session = (.ok resolved, session) := by
    show Eval.runOn session (Arguments.nonEmptyString place (.string path) >>= resolve) = _
    rw [nonEmptyString_of_filled holds.filled]
    show (Eval.lift (session.resolve path)).runOn session = _
    rw [holds.found]
    rfl
  have decoded : session.files.readText resolved resolved.text = .ok (unified text) := by
    show (session.files.read resolved resolved.text >>= _) = _
    rw [holds.there]
    show (Text.decode (Text.encode text.toList) >>= _) = _
    rw [Text.decode_encode]
    rfl
  refine (Eval.runOn_bind_ok means _).trans ?_
  show Eval.runOn session (do
    return Value.string (← Eval.lift (session.files.readText resolved resolved.text))) = _
  rw [decoded]
  rfl

end Holds

/-- What a file holds after a write that comes off and any further calls that write, which come off
too, is the text of the last write with all that was appended since. It is read with its line ends
unified, and so as it is exactly when it has no carriage return. -/
theorem written_reads_back {engine : Engine} {place : Location} {text : String}
    (accepted : ((Writing.write text).call engine place path).runOn session = (.ok value, after))
    (calls : List (Location × Writing)) (reading : Location) : ∃ last,
      (Writing.callAll engine path calls).runOn after = (.ok (calls.map fun _ => value), last) ∧
        let held := Writing.allOnto text calls
        (LibraryFunction.call engine reading [.string path] (.file .read)).runOn last =
            (.ok (.string (unified held)), last) ∧
          (unified held = held ↔ '\r' ∉ held.toList) := by
  obtain ⟨resolved, rfl, holds⟩ := Holds.of_accepted accepted
  obtain ⟨last, runs, holds⟩ := holds.writings engine calls
  exact ⟨last, runs, holds.reading engine reading, unified_eq_self_iff⟩

/-- A line end that two texts make together is read as one newline, and a text written again in place
of all has no trace of them. -/
theorem written_reads_back_joined :
    let opened := Session.start .empty [] [] (.recorded [] [])
    let value := Value.string "/notes"
    ∃ after last,
      ((Writing.write "old").call .default ⟨1, 1⟩ "notes").runOn opened = (.ok value, after) ∧
        (Writing.callAll .default "notes" [(⟨2, 1⟩, .append "er"), (⟨3, 1⟩, .write "ä\r"),
            (⟨4, 1⟩, .append "\n→")]).runOn after = (.ok [value, value, value], last) ∧
        (LibraryFunction.call .default ⟨5, 1⟩ [.string "notes"] (.file .read)).runOn last =
          (.ok (.string "ä\n→"), last) := by
  intro opened value
  have accepted : ((Writing.write "old").call .default ⟨1, 1⟩ "notes").runOn opened =
      (.ok value, (((Writing.write "old").call .default ⟨1, 1⟩ "notes").runOn opened).2) := rfl
  obtain ⟨last, runs, read, -⟩ := written_reads_back accepted
    [(⟨2, 1⟩, .append "er"), (⟨3, 1⟩, .write "ä\r"), (⟨4, 1⟩, .append "\n→")] ⟨5, 1⟩
  have text : unified "ä\r\n→" = "ä\n→" := by decide
  exact ⟨_, last, accepted, runs, read.trans (by rw [← text]; rfl)⟩

/-- A carriage return is not read back, though it was written. -/
theorem carriageReturn_unread : ∃ value after,
    ((Writing.write "a\rb").call .default ⟨1, 1⟩ "notes").runOn
        (Session.start .empty [] [] (.recorded [] [])) = (.ok value, after) ∧
      (LibraryFunction.call .default ⟨2, 1⟩ [.string "notes"] (.file .read)).runOn after =
        (.ok (.string "a\nb"), after) ∧ "a\nb" ≠ "a\rb" := by
  have accepted : ((Writing.write "a\rb").call .default ⟨1, 1⟩ "notes").runOn
      (Session.start .empty [] [] (.recorded [] [])) = (.ok (.string "/notes"), _) := rfl
  obtain ⟨resolved, -, holds⟩ := Holds.of_accepted accepted
  have text : unified "a\rb" = "a\nb" := by decide
  exact ⟨_, _, accepted, text ▸ holds.reading .default ⟨2, 1⟩, by decide⟩

end Files

end ShellLisp
