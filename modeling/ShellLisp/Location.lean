/-!
# Source locations

Lines and columns of source text, both counted from one. Columns count characters.
-/

namespace ShellLisp

structure Location where
  line : Nat
  column : Nat
  deriving DecidableEq, Repr, Inhabited

namespace Location

/-- The place of what no source text holds. -/
def nowhere : Location := ⟨0, 0⟩

def start : Location := ⟨1, 1⟩

/-- The place after a character: only a newline begins a new line. -/
def next (place : Location) (c : Char) : Location :=
  if c = '\n' then ⟨place.line + 1, 1⟩ else ⟨place.line, place.column + 1⟩

def afterText (place : Location) (text : List Char) : Location := text.foldl next place

def text (place : Location) : String := toString place.line ++ ":" ++ toString place.column

theorem afterText_append (place : Location) (first second : List Char) :
    place.afterText (first ++ second) = (place.afterText first).afterText second := by
  simp [afterText]

end Location

end ShellLisp
