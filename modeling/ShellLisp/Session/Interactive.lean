import ShellLisp.Session.Start
import ShellLisp.Store.Printer
import ShellLisp.Text.Blank
import ShellLisp.Text.Literal

/-!
# Interactive sessions

A session that is fed line by line. Each result that is neither null nor the empty text is kept
under the next numbered name and printed with it; a problem is printed as it is. The session ends
with its input, or when its `exit` command was called, and then writes its history.
-/

namespace ShellLisp

inductive InputLine
  | text (line : String)
  | interrupt

namespace Session

def promptText (session : Session) : String := session.directory.text ++ "$ "

def isShown : Value → Bool
  | .null => false
  | .string text => !text.isEmpty
  | _ => true

/-- A session with a result under the next name, and the name. -/
def keepResult (session : Session) (value : Value) : String × Session :=
  let name := resultName session.results
  (name, { session.define name value with results := session.results + 1 })

/-- Evaluates a line, and gives what is printed for it, if anything is. -/
def handle (session : Session) (style : Style) (line : String) :
    Except Failure (Option String) × Session :=
  match session.evaluate line with
  | (.error (.problem problem), after) =>
      let note := "evaluation failed: " ++ Text.literal line
      (.ok (some problem.text), after.record (.logged ⟨.debug, "lish.repl", note⟩))
  | (.error failure, after) => (.error failure, after)
  | (.ok value, after) =>
      if isShown value then
        let (name, kept) := after.keepResult value
        match kept.store.display style value with
        | .ok text => (.ok (some ("$" ++ name ++ ": " ++ text)), kept)
        | .error failure => (.error failure, kept)
      else (.ok none, after)

/-- Handles the lines of an input until it ends or the session is left. -/
def handleAll (style : Style) : Session → List InputLine → Except Failure Unit × Session
  | session, [] =>
      (.ok (), if session.running then session.record (.prompt session.promptText) else session)
  | session, line :: rest =>
      if session.running then
        let asked := session.record (.prompt session.promptText)
        match line with
        | .interrupt => handleAll style (asked.record (.reply "")) rest
        | .text text =>
            if (Text.trim text.toList).isEmpty then handleAll style asked rest
            else
              match asked.handle style text with
              | (.error failure, after) => (.error failure, after)
              | (.ok none, after) => handleAll style after rest
              | (.ok (some printed), after) =>
                  handleAll style (after.record (.reply printed)) rest
      else (.ok (), session)

/-- The text of a fault of the file system without the path it is about. -/
def withoutPath (fault : Fault) : String :=
  String.ofList (fault.text.toList.takeWhile (· ≠ ':'))

def noteHistory (session : Session) (path : WrittenPath) : Session :=
  match session.files.find? (path.resolve session.directory) with
  | some (.file _) => session
  | _ => session.record (.logged ⟨.debug, "lish.repl", "no history at " ++ path.text⟩)

/-- A session that has written its history, or has noted why it could not. -/
def saveHistory (session : Session) (directory : Path) (path : WrittenPath) : Session :=
  match session.files.append (path.resolve directory) path.text [] with
  | .ok files => { session with files }
  | .error fault =>
      session.record (.logged ⟨.warning, "lish.repl",
        "could not save history to " ++ path.text ++ ": " ++ withoutPath fault⟩)

/-- Runs an interactive session on an input, with a history if a path is given. -/
def runInteractive (session : Session) (style : Style) (history : Option WrittenPath)
    (input : List InputLine) : Except Failure Unit × Session :=
  let directory := session.directory
  let ready := (history.map session.noteHistory).getD session
  let (result, ended) := handleAll style { ready with running := true } input
  let stopped := { ended with running := false }
  (result, (history.map (stopped.saveHistory directory)).getD stopped)

end Session

end ShellLisp
