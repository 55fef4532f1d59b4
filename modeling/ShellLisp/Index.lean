import ShellLisp.Expr.Reading

/-!
# The index of a document

The definitions of a text, found without evaluating it: every `(def $name …` and `(defn $name
[$params…] …` among its tokens. A string that is never closed hides only what comes after its quote.
The index also has the problem, if any, that reading the text as a program runs into.
-/

namespace ShellLisp

inductive SymbolKind
  | variable
  | function
  deriving DecidableEq, Repr

def SymbolKind.name : SymbolKind → String
  | .variable => "var"
  | .function => "function"

/-- A definition in a document; line and column are counted from zero. -/
structure SymbolEntry where
  name : String
  kind : SymbolKind
  line : Nat
  column : Nat
  parameters : List String
  deriving DecidableEq, Repr

/-- A symbol as a use of it would be written. -/
def SymbolEntry.signature (entry : SymbolEntry) : String :=
  match entry.kind with
  | .variable => "$" ++ entry.name
  | .function => "(" ++ " ".intercalate (entry.name :: entry.parameters.map ("$" ++ ·)) ++ ")"

structure DocumentIndex where
  symbols : List SymbolEntry
  problem : Option Problem

/-- A place counted from zero; what no source text holds is put at the start. -/
def Location.zeroBased (place : Location) : Nat × Nat :=
  if place.line = 0 then (0, 0) else (place.line - 1, place.column - 1)

/-- The offset at which a line of a text starts, the lines being counted from zero; none when the
text has fewer lines. -/
def lineOffset? : Nat → List Char → Option Nat
  | 0, _ => some 0
  | _ + 1, [] => none
  | line + 1, c :: rest =>
      (lineOffset? (if c = '\n' then line else line + 1) rest).map (· + 1)

def Location.offset (place : Location) (text : List Char) : Nat :=
  match lineOffset? place.zeroBased.1 text with
  | some start => start + place.zeroBased.2
  | none => text.length

/-- The tokens of a text, or those before the quote of a string that is never closed. -/
def Token.lexTolerant (source : List Char) : Except Failure (List Token) :=
  match Token.lexChars source with
  | .error (.problem problem) =>
      match problem.place with
      | some place => Token.lexChars (source.take (place.offset source))
      | none => .ok []
  | result => result

def SymbolKind.ofWord? (lexeme : Lexeme) : Option SymbolKind :=
  match lexeme with
  | .word text =>
      if text = "def" then some .variable else if text = "defn" then some .function else none
  | _ => none

def leadingVariables : List Token → List String
  | [] => []
  | token :: rest =>
      match token.lexeme with
      | .variable name => name :: leadingVariables rest
      | _ => []

def leadingParameters : List Token → List String
  | [] => []
  | token :: rest =>
      match token.lexeme with
      | .bracket '[' => leadingVariables rest
      | _ => []

def SymbolEntry.ofTokens? : List Token → Option SymbolEntry
  | opening :: head :: name :: rest =>
      match opening.lexeme, SymbolKind.ofWord? head.lexeme, name.lexeme with
      | .bracket '(', some kind, .variable text =>
          let (line, column) := name.place.zeroBased
          let parameters := if kind = .function then leadingParameters rest else []
          some ⟨text, kind, line, column, parameters⟩
      | _, _, _ => none
  | _ => none

/-- Symbols with one more: in the place of the one of that name, or at the end. -/
def putSymbol (entry : SymbolEntry) : List SymbolEntry → List SymbolEntry
  | [] => [entry]
  | first :: rest =>
      if first.name = entry.name then entry :: rest else first :: putSymbol entry rest

def collectSymbols : List SymbolEntry → List Token → List SymbolEntry
  | found, [] => found
  | found, token :: rest =>
      match SymbolEntry.ofTokens? (token :: rest) with
      | some entry => collectSymbols (putSymbol entry found) rest
      | none => collectSymbols found rest

def DocumentIndex.ofText (text : String) : Except Failure DocumentIndex := do
  let tokens ← Token.lexTolerant text.toList
  let symbols := collectSymbols [] tokens
  match Expr.read text with
  | .ok _ => return ⟨symbols, none⟩
  | .error (.problem problem) => return ⟨symbols, some problem⟩
  | .error failure => .error failure

def DocumentIndex.symbol? (index : DocumentIndex) (name : String) : Option SymbolEntry :=
  index.symbols.find? (·.name = name)

theorem mem_putSymbol_self (entry : SymbolEntry) (found : List SymbolEntry) :
    entry ∈ putSymbol entry found := by
  induction found with
  | nil => simp [putSymbol]
  | cons first rest ih =>
      unfold putSymbol
      split
      · exact List.mem_cons_self
      · exact List.mem_cons_of_mem _ ih

end ShellLisp
