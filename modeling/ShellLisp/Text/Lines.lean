/-!
# Lines

Two rules for where a line ends. `lines` cuts a text at every line boundary of Unicode and drops the
boundary; `unifyNewlines` is the reading rule of text files, which turns a carriage return, alone or
before a newline, into a newline. The main statement is that unified text has no carriage return.
-/

namespace ShellLisp.Text

def isLineEnd (c : Char) : Bool :=
  [10, 11, 12, 13, 28, 29, 30, 133, 8232, 8233].contains c.toNat

/-- Collects lines, the open line and the lines found being held in reverse. -/
def collectLines : List Char → List Char → List (List Char) → List (List Char)
  | [], line, found => (if line.isEmpty then found else line.reverse :: found).reverse
  | '\r' :: '\n' :: rest, line, found => collectLines rest [] (line.reverse :: found)
  | c :: rest, line, found =>
      if isLineEnd c then collectLines rest [] (line.reverse :: found)
      else collectLines rest (c :: line) found

/-- The lines of a text without their ends; an end at the end of the text adds no empty line. -/
def lines (text : List Char) : List (List Char) := collectLines text [] []

/-- A text with every carriage return, and every pair of one with a newline, made a newline. -/
def unifyNewlines : List Char → List Char
  | [] => []
  | '\r' :: '\n' :: rest => '\n' :: unifyNewlines rest
  | '\r' :: rest => '\n' :: unifyNewlines rest
  | c :: rest => c :: unifyNewlines rest

theorem carriageReturn_not_mem_unifyNewlines (text : List Char) : '\r' ∉ unifyNewlines text := by
  fun_induction unifyNewlines text with
  | case1 => simp
  | case2 rest ih => simpa using ih
  | case3 rest _ ih => simpa using ih
  | case4 c rest _ other ih =>
      simp only [List.mem_cons, not_or]
      exact ⟨fun same => other same.symm, ih⟩

theorem unifyNewlines_eq_self {text : List Char} (free : '\r' ∉ text) :
    unifyNewlines text = text := by
  induction text with
  | nil => rfl
  | cons c rest ih =>
      have tail := ih (fun member => free (List.mem_cons_of_mem _ member))
      have head : c ≠ '\r' := fun same => free (same ▸ List.mem_cons_self)
      rw [unifyNewlines]
      · rw [tail]
      · intro _ same _
        exact head same
      · exact head

end ShellLisp.Text
