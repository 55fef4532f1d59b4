import ShellLisp.Path

/-!
# Files

A tree of files and directories, held as the entries under their resolved paths. The operations are
those that programs have: looking a path up, listing a directory, reading, replacing and extending a
file, and removing what is there. The main statement is that a file that was written reads back.
-/

namespace ShellLisp

inductive FileEntry
  | file (bytes : List UInt8)
  | directory
  deriving DecidableEq, Repr

/-- The entries of a file system under their paths; the root is a directory without an entry. -/
structure FileTree where
  entries : List (Path × FileEntry)

namespace FileTree

def empty : FileTree := ⟨[]⟩

def find? (files : FileTree) (path : Path) : Option FileEntry :=
  if path = [] then some .directory else files.entries.lookup path

def isDirectory (files : FileTree) (path : Path) : Bool := files.find? path == some .directory

def holds (files : FileTree) (path : Path) : Bool := (files.find? path).isSome

/-- Entries with what is under a path replaced, or added when nothing is there. -/
def putEntry (path : Path) (entry : FileEntry) : List (Path × FileEntry) → List (Path × FileEntry)
  | [] => [(path, entry)]
  | (p, e) :: rest =>
      if p = path then (path, entry) :: rest else (p, e) :: putEntry path entry rest

def put (files : FileTree) (path : Path) (entry : FileEntry) : FileTree :=
  ⟨putEntry path entry files.entries⟩

/-- The paths of the directories above a path, without the root, outermost first. -/
def ancestors (path : Path) : List Path :=
  (List.range path.length).tail.map path.take

def makeAncestors (files : FileTree) (path : Path) : FileTree :=
  (ancestors path).foldl
    (fun tree above => if tree.holds above then tree else tree.put above .directory) files

def plant (files : FileTree) (path : Path) (entry : FileEntry) : FileTree :=
  (files.makeAncestors path).put path entry

def names (files : FileTree) (path : Path) : List String :=
  files.entries.filterMap fun (found, _) =>
    if found.dropLast = path ∧ found ≠ [] then found.getLast? else none

def remove (files : FileTree) (path : Path) : FileTree :=
  ⟨files.entries.filter fun (found, _) => !path.isPrefixOf found⟩

def isBelowFile (files : FileTree) (path : Path) : Bool :=
  (ancestors path).any fun above =>
    match files.find? above with
    | some (.file _) => true
    | _ => false

def missing (files : FileTree) (path : Path) (shown : String) : Fault :=
  if files.isBelowFile path then .onPath .notDirectory 20 "Not a directory" (Text.literal shown)
  else .onPath .missingFile 2 "No such file or directory" (Text.literal shown)

def nameTooLong (shown : String) : Fault :=
  .onPath .system 36 "File name too long" (Text.literal shown)

def directoryUsed (shown : String) : Fault :=
  .onPath .isDirectory 21 "Is a directory" (Text.literal shown)

def read (files : FileTree) (path : Path) (shown : String) : Except Fault (List UInt8) :=
  if !path.isNameable then .error (nameTooLong shown)
  else
    match files.find? path with
    | some (.file bytes) => .ok bytes
    | some .directory => .error (directoryUsed shown)
    | none => .error (files.missing path shown)

/-- The tree with a file that has the bytes given by the old ones; the directory must be there. -/
def modify (files : FileTree) (path : Path) (shown : String) (change : List UInt8 → List UInt8) :
    Except Fault FileTree :=
  if !path.isNameable then .error (nameTooLong shown)
  else
    match files.find? path with
    | some (.file bytes) => .ok (files.put path (.file (change bytes)))
    | some .directory => .error (directoryUsed shown)
    | none =>
        if files.isDirectory path.dropLast then .ok (files.put path (.file (change [])))
        else .error (files.missing path shown)

def write (files : FileTree) (path : Path) (shown : String) (bytes : List UInt8) :
    Except Fault FileTree :=
  files.modify path shown fun _ => bytes

def append (files : FileTree) (path : Path) (shown : String) (bytes : List UInt8) :
    Except Fault FileTree :=
  files.modify path shown (· ++ bytes)

/-- The sorted names in a directory; a fault shows the path as given. -/
def list (files : FileTree) (path : Path) (shown : String) : Except Fault (List String) :=
  if !path.isNameable then .error (nameTooLong shown)
  else
    match files.find? path with
    | some .directory => .ok ((files.names path).mergeSort fun a b => !(b < a))
    | some (.file _) => .error (.onPath .notDirectory 20 "Not a directory" (Text.literal shown))
    | none => .error (files.missing path shown)

def enter (files : FileTree) (shown : String) (path : Path) (part : List Char) :
    Except Fault Path :=
  if !files.isDirectory path then
    .error (if files.holds path then .onPath .notDirectory 20 "Not a directory" (Text.literal shown)
      else files.missing path shown)
  else if part = [] ∨ part = ['.'] then .ok path
  else if part = ['.', '.'] then .ok path.dropLast
  else .ok (path ++ [String.ofList part])

/-- The path that a text means when each of its parts is looked for in a directory, which must be
there; a slash at its end asks for a directory. -/
def follow (files : FileTree) (directory : Path) (text : String) : Except Fault Path :=
  if text.isEmpty then
    .error (.onPath .missingFile 2 "No such file or directory" (Text.literal text))
  else if text.toList.contains '\x00' then .error .embeddedNull
  else
    let start := if text.toList.head? = some '/' then [] else directory
    (Text.split ['/'] text.toList).foldlM (files.enter text) start

theorem lookup_putEntry_self (path : Path) (entry : FileEntry) (entries : List (Path × FileEntry)) :
    (putEntry path entry entries).lookup path = some entry := by
  induction entries with
  | nil => simp [putEntry]
  | cons first rest ih =>
      obtain ⟨p, e⟩ := first
      unfold putEntry
      split
      · simp
      · rename_i different
        have unequal : (path == p) = false := by simpa using Ne.symm different
        rw [List.lookup_cons, unequal]
        exact ih

theorem find?_put_self (files : FileTree) {path : Path} (below : path ≠ []) (entry : FileEntry) :
    (files.put path entry).find? path = some entry := by
  simp [find?, put, below, lookup_putEntry_self]

theorem read_of_modify {files changed : FileTree} {path : Path} {shown : String}
    {change : List UInt8 → List UInt8} (below : path ≠ [])
    (done : files.modify path shown change = .ok changed) :
    ∃ bytes, changed.read path shown = .ok (change bytes) := by
  unfold modify at done
  split at done
  · contradiction
  · rename_i nameable
    split at done
    · rename_i bytes _
      cases done
      exact ⟨bytes, by simp [read, nameable, find?_put_self _ below]⟩
    · contradiction
    · split at done
      · cases done
        exact ⟨[], by simp [read, nameable, find?_put_self _ below]⟩
      · contradiction

theorem read_of_write {files changed : FileTree} {path : Path} {shown : String} {bytes : List UInt8}
    (below : path ≠ []) (done : files.write path shown bytes = .ok changed) :
    changed.read path shown = .ok bytes := by
  obtain ⟨_, reading⟩ := read_of_modify below done
  exact reading

end FileTree

end ShellLisp
