/-!
# Parts of a text

Finding, splitting at and replacing a part of a text. The main statement is that joining what a
split gave with the separator yields the text again.
-/

namespace ShellLisp.Text

def after? : List Char → List Char → Option (List Char)
  | [], text => some text
  | _ :: _, [] => none
  | p :: part, c :: text => if p = c then after? part text else none

def hasPart (part : List Char) : List Char → Bool
  | [] => part.isEmpty
  | c :: rest => part.isPrefixOf (c :: rest) || hasPart part rest

/-- Splits a text at each occurrence of a separator, from the left and without overlap. -/
def splitAtPart (separator : List Char) : Nat → List Char → List Char → List (List Char)
  | 0, piece, text => [piece.reverse ++ text]
  | _ + 1, piece, [] => [piece.reverse]
  | bound + 1, piece, c :: rest =>
      match after? separator (c :: rest) with
      | some beyond => piece.reverse :: splitAtPart separator bound [] beyond
      | none => splitAtPart separator bound (c :: piece) rest

/-- The pieces of a text between the occurrences of a separator that is not empty. -/
def split (separator text : List Char) : List (List Char) :=
  splitAtPart separator (text.length + 1) [] text

def join (separator : List Char) : List (List Char) → List Char
  | [] => []
  | [piece] => piece
  | piece :: rest => piece ++ separator ++ join separator rest

/-- A text with each occurrence of `old` made `new`; an empty `old` occurs around every
character. -/
def replace (old new text : List Char) : List Char :=
  if old.isEmpty then new ++ text.flatMap (fun c => c :: new) else join new (split old text)

theorem after?_eq_some_iff {part text rest : List Char} :
    after? part text = some rest ↔ text = part ++ rest := by
  induction part generalizing text with
  | nil => simp [after?, eq_comm]
  | cons p part ih =>
      cases text with
      | nil => simp [after?]
      | cons c text =>
          by_cases same : p = c
          · simp [after?, same, ih]
          · simp [after?, same, Ne.symm same]

theorem join_cons_of_ne_nil (separator piece : List Char) {pieces : List (List Char)}
    (more : pieces ≠ []) :
    join separator (piece :: pieces) = piece ++ separator ++ join separator pieces := by
  cases pieces with
  | nil => exact absurd rfl more
  | cons _ _ => rfl

theorem splitAtPart_ne_nil (separator : List Char) (bound : Nat) (piece text : List Char) :
    splitAtPart separator bound piece text ≠ [] := by
  fun_induction splitAtPart separator bound piece text with
  | case1 => simp
  | case2 => simp
  | case3 => simp
  | case4 _ _ _ _ _ ih => exact ih

theorem join_splitAtPart (separator : List Char) (bound : Nat) (piece text : List Char) :
    join separator (splitAtPart separator bound piece text) = piece.reverse ++ text := by
  fun_induction splitAtPart separator bound piece text with
  | case1 => rfl
  | case2 => simp [join]
  | case3 bound piece c rest beyond found ih =>
      rw [join_cons_of_ne_nil _ _ (splitAtPart_ne_nil _ _ _ _), ih]
      rw [after?_eq_some_iff.mp found]
      simp
  | case4 bound piece c rest missing ih => rw [ih]; simp

theorem join_split (separator text : List Char) : join separator (split separator text) = text := by
  simp [split, join_splitAtPart]

end ShellLisp.Text
