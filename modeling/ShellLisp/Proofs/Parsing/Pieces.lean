import Mathlib.Data.List.Basic
import ShellLisp.Text.Lines
import ShellLisp.Text.Search

/-!
# Lines and fields

Cutting a text at line ends, and splitting it at a mark. Lines without line ends that are joined by
newlines, and parts without the mark that are joined by it, are what the text is cut into again.
-/

namespace ShellLisp
open Text

/-! ## Fields -/

theorem Text.splitAtPart_of_absent {mark : Char} {text : List Char} (absent : mark ∉ text)
    {bound : Nat} (enough : text.length < bound) (before : List Char) :
    splitAtPart [mark] bound before text = [before.reverse ++ text] := by
  induction text generalizing bound before with
  | nil =>
      obtain ⟨bound, rfl⟩ := Nat.exists_eq_add_of_lt enough
      simp [splitAtPart]
  | cons c rest ih =>
      obtain ⟨bound, rfl⟩ : ∃ more, bound = more + 1 := ⟨bound - 1, by omega⟩
      obtain ⟨other, later⟩ := not_or.mp (List.mem_cons.not.mp absent)
      have missing : after? [mark] (c :: rest) = none := by simp [after?, other]
      rw [splitAtPart, missing]
      dsimp only
      rw [ih later (by simpa using enough)]
      simp

theorem Text.splitAtPart_behind {mark : Char} {text : List Char} (absent : mark ∉ text)
    (rest : List Char) (bound : Nat) (before : List Char) :
    splitAtPart [mark] (bound + 1 + text.length) before (text ++ mark :: rest) =
      (before.reverse ++ text) :: splitAtPart [mark] bound [] rest := by
  induction text generalizing before with
  | nil => simp [splitAtPart, after?]
  | cons c others ih =>
      obtain ⟨other, later⟩ := not_or.mp (List.mem_cons.not.mp absent)
      have missing : after? [mark] (c :: (others ++ mark :: rest)) = none := by
        simp [after?, other]
      rw [List.cons_append, List.length_cons, ← Nat.add_assoc, splitAtPart, missing]
      dsimp only
      rw [ih later]
      simp

theorem Text.split_intercalate {mark : Char} {parts : List (List Char)} (filled : parts ≠ [])
    (absent : ∀ part ∈ parts, mark ∉ part) : split [mark] ([mark].intercalate parts) = parts := by
  induction parts with
  | nil => exact absurd rfl filled
  | cons part rest ih =>
      obtain ⟨here, later⟩ := List.forall_mem_cons.mp absent
      cases rest with
      | nil => simpa [split] using splitAtPart_of_absent here (Nat.lt_succ_self _) []
      | cons next others =>
          rw [List.intercalate_cons_cons, List.append_assoc, List.singleton_append, split]
          have long : (part ++ mark :: [mark].intercalate (next :: others)).length + 1 =
              ([mark].intercalate (next :: others)).length + 1 + 1 + part.length := by
            simp only [List.length_append, List.length_cons]
            omega
          rw [long, splitAtPart_behind here, ← split, ih (List.cons_ne_nil _ _) later]
          simp

/-! ## Lines -/

theorem collectLines_return (rest line : List Char) (found : List (List Char)) :
    collectLines ('\r' :: '\n' :: rest) line found = collectLines ('\n' :: rest) line found := by
  rw [collectLines, collectLines, if_pos (by decide)]
  simp

theorem collectLines_lineEnd {c : Char} (ends : isLineEnd c = true) {rest : List Char}
    (single : c = '\r' → rest.head? ≠ some '\n') (line : List Char) (found : List (List Char)) :
    collectLines (c :: rest) line found = collectLines rest [] (line.reverse :: found) := by
  rw [collectLines, if_pos ends]
  rintro more rfl rfl
  exact single rfl rfl

theorem collectLines_newline (rest line : List Char) (found : List (List Char)) :
    collectLines ('\n' :: rest) line found = collectLines rest [] (line.reverse :: found) :=
  collectLines_lineEnd (by decide) (fun same => absurd same (by decide)) line found

theorem collectLines_inside {c : Char} (inside : isLineEnd c = false) (rest line : List Char)
    (found : List (List Char)) :
    collectLines (c :: rest) line found = collectLines rest (c :: line) found := by
  rw [collectLines, if_neg (by simp [inside])]
  rintro more rfl
  cases inside

theorem collectLines_found (text line : List Char) (found : List (List Char)) :
    collectLines text line found = found.reverse ++ collectLines text line [] := by
  induction text generalizing line found with
  | nil =>
      rw [collectLines, collectLines]
      split <;> simp
  | cons c rest ih =>
      by_cases pair : c = '\r' ∧ rest.head? = some '\n'
      · obtain ⟨rfl, next⟩ := pair
        obtain ⟨more, rfl⟩ := List.head?_eq_some_iff.mp next
        rw [collectLines_return, collectLines_return, ih]
      · have single : c = '\r' → rest.head? ≠ some '\n' := fun same next => pair ⟨same, next⟩
        cases ends : isLineEnd c with
        | true =>
            rw [collectLines_lineEnd ends single, collectLines_lineEnd ends single, ih,
              ih [] [line.reverse]]
            simp
        | false => rw [collectLines_inside ends, collectLines_inside ends, ih]

theorem collectLines_oneLine {text : List Char} (oneLine : ∀ c ∈ text, isLineEnd c = false)
    (rest line : List Char) :
    collectLines (text ++ rest) line [] = collectLines rest (text.reverse ++ line) [] := by
  induction text generalizing line with
  | nil => rfl
  | cons c tail ih =>
      obtain ⟨first, others⟩ := List.forall_mem_cons.mp oneLine
      rw [List.cons_append, collectLines_inside first, ih others, List.reverse_cons,
        List.append_assoc, List.singleton_append]

theorem lines_intercalate {lines : List (List Char)}
    (filled : ∀ line ∈ lines, line ≠ [])
    (oneLine : ∀ line ∈ lines, ∀ c ∈ line, isLineEnd c = false) :
    Text.lines (['\n'].intercalate lines) = lines := by
  unfold Text.lines
  induction lines with
  | nil => rfl
  | cons line rest ih =>
      obtain ⟨here, later⟩ := List.forall_mem_cons.mp filled
      obtain ⟨plain, others⟩ := List.forall_mem_cons.mp oneLine
      cases rest with
      | nil =>
          have collected := collectLines_oneLine plain [] []
          rw [List.append_nil, List.append_nil] at collected
          rw [List.intercalate_singleton, collected, collectLines, if_neg (by simpa using here)]
          simp
      | cons next more =>
          rw [List.intercalate_cons_cons, List.append_assoc, collectLines_oneLine plain,
            List.singleton_append, collectLines_newline, collectLines_found, ih later others]
          simp

end ShellLisp
