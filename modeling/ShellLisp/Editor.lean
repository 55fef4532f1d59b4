import ShellLisp.Editor.Summaries
import ShellLisp.Index
import ShellLisp.Text.Lines

/-!
# Editing documents

The answers of a language server about open documents: diagnostics, what is shown over a word,
completions, and the symbols of a document. Lines and columns are counted from zero.
-/

namespace ShellLisp

structure Document where
  text : String
  index : DocumentIndex

abbrev Workspace := List (String × Document)

structure LineRange where
  line : Nat
  first : Nat
  last : Nat
  deriving DecidableEq, Repr

structure Diagnostic where
  range : LineRange
  message : String

namespace Document

def ofText (text : String) : Except Failure Document :=
  (DocumentIndex.ofText text).map fun index => ⟨text, index⟩

/-- The problem of the document, if any, at the character where it is. -/
def diagnostics (document : Document) : List Diagnostic :=
  match document.index.problem with
  | none => []
  | some problem =>
      let (line, column) := (problem.place.map Location.zeroBased).getD (0, 0)
      [⟨⟨line, column, column + 1⟩, problem.cause.message⟩]

end Document

def separatesWords (c : Char) : Bool :=
  [' ', '\t', '\r', '\n', '(', ')', '[', ']', '{', '}', '"', '\'', '|', ';'].contains c

/-- The word around a column of a line; at its end the word before it. -/
def wordAround (line : List Char) (column : Nat) : List Char :=
  let before := (line.take column).reverse.takeWhile (!separatesWords ·)
  let after := (line.drop column).takeWhile (!separatesWords ·)
  before.reverse ++ after

def wordAt? (text : String) (line column : Nat) : Option String :=
  match (Text.lines text.toList)[line]? with
  | none => none
  | some found =>
      let word := wordAround found column
      if word.isEmpty then none else some (String.ofList word)

namespace Document

def describe? (document : Document) (word : String) : Option String :=
  match librarySummary? word with
  | some summary => some (word ++ ": " ++ summary)
  | none =>
      let name := String.ofList (word.toList.dropWhile (· = '$'))
      (document.index.symbol? name).map fun entry =>
        entry.signature ++ ": " ++ entry.kind.name ++ " defined at " ++
          (Location.mk (entry.line + 1) (entry.column + 1)).text

def hover? (document : Document) (line column : Nat) : Option String :=
  (wordAt? document.text line column).bind document.describe?

end Document

structure Completion where
  label : String
  kind : SymbolKind
  detail : String

def libraryCompletions : List Completion :=
  librarySummaries.map fun (name, summary) => ⟨name, .function, summary⟩

def Document.completions (document : Document) : List Completion :=
  document.index.symbols.map fun entry => ⟨entry.name, entry.kind, entry.signature⟩

def SymbolEntry.range (entry : SymbolEntry) : LineRange :=
  ⟨entry.line, entry.column, entry.column + entry.name.length + 1⟩

namespace Workspace

def document? (workspace : Workspace) (address : String) : Option Document :=
  workspace.lookup address

def close (workspace : Workspace) (address : String) : Workspace :=
  workspace.filter (·.1 ≠ address)

def put (workspace : Workspace) (address : String) (document : Document) : Workspace :=
  (address, document) :: workspace.close address

/-- The text of a document after changes, each of which gives the whole text. -/
def changedText (workspace : Workspace) (address : String) (texts : List String) : String :=
  match texts.getLast? with
  | some text => text
  | none => ((workspace.document? address).map (·.text)).getD ""

end Workspace

theorem lookup_close_self (workspace : Workspace) (address : String) :
    (workspace.close address).lookup address = none := by
  induction workspace with
  | nil => rfl
  | cons entry rest ih =>
      by_cases same : entry.1 = address
      · simpa [Workspace.close, same] using ih
      · have unequal : (address == entry.1) = false := by simpa using Ne.symm same
        have kept :
            Workspace.close (entry :: rest) address = entry :: Workspace.close rest address := by
          simp [Workspace.close, same]
        rw [kept, List.lookup_cons, unequal]
        exact ih

end ShellLisp
