import ShellLisp.Text.Literal
import ShellLisp.Text.Search
import ShellLisp.Fault

/-!
# Paths

Paths of the file system as they are written and as they are resolved. A written path is cut at its
slashes, empty parts and single dots saying nothing, except that two slashes at its start are kept
apart from one; a resolved path starts at the root and has no double dots.
-/

namespace ShellLisp

/-- A resolved path: the names from the root on. -/
abbrev Path := List String

def Path.text (path : Path) : String := "/" ++ "/".intercalate path

/-- A path as written, without the parts that say nothing. -/
structure WrittenPath where
  /-- The slashes it starts with: none for a path that starts at the working directory. -/
  slashes : Nat
  parts : List String
  deriving DecidableEq, Repr

namespace WrittenPath

def ofPath (path : Path) : WrittenPath := ⟨1, path⟩

/-- How many slashes of those at the start of a path are kept: three or more count as one. -/
def keptSlashes (count : Nat) : Nat := if 2 < count then 1 else count

def ofText (text : String) : WrittenPath :=
  let parts := (Text.split ['/'] text.toList).filter fun part => part ≠ [] && part ≠ ['.']
  ⟨keptSlashes (text.toList.takeWhile (· = '/')).length, parts.map String.ofList⟩

def text (path : WrittenPath) : String :=
  if path.slashes = 0 ∧ path.parts = [] then "."
  else "".pushn '/' path.slashes ++ "/".intercalate path.parts

/-- A path with a home directory for a tilde at its start; no other user's home is known. -/
def expandHome (path home : WrittenPath) : Except Fault WrittenPath :=
  match path.slashes, path.parts with
  | 0, first :: rest =>
      if first = "~" then .ok { home with parts := home.parts ++ rest }
      else if first.toList.head? = some '~' then .error .noHome
      else .ok path
  | _, _ => .ok path

/-- Follows a part of a path from the given reversed path. -/
def follow (reversed : List String) (part : String) : List String :=
  if part = ".." then reversed.tail else part :: reversed

/-- The path that a written path means when it is followed from a directory. -/
def resolve (directory : Path) (path : WrittenPath) : Path :=
  let start := if path.slashes = 0 then directory.reverse else []
  (path.parts.foldl follow start).reverse

end WrittenPath

def nameLimit : Nat := 255

def Path.isNameable (path : Path) : Bool := path.all (·.utf8ByteSize ≤ nameLimit)

theorem resolve_nil (directory : Path) : WrittenPath.resolve directory ⟨0, []⟩ = directory := by
  simp [WrittenPath.resolve]

end ShellLisp
