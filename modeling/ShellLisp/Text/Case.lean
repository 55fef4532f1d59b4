import ShellLisp.Text.CaseTable

/-!
# Capital and small letters

Case mappings of whole texts. A letter may become several (`ß` has the capital form `SS`), and a
capital sigma becomes a final sigma at the end of a word.
-/

namespace ShellLisp.Text

/-- The case mapping that a table of expansions and a table of shifts give for one character. -/
def mapCase (expansions : List (Nat × List Nat)) (shifts : List CaseShift) (c : Char) : List Char :=
  match expansions.lookup c.toNat with
  | some codes => codes.map Char.ofNat
  | none =>
      match shifts.find? (·.moves c.toNat) with
      | some shift => [Char.ofNat (c.toNat + shift.distance).toNat]
      | none => [c]

def upper (text : List Char) : List Char :=
  text.flatMap (mapCase upperExpansions upperShifts)

/-- Whether the first character of a text that is not passed over is a letter with case. -/
def meetsCased (text : List Char) : Bool :=
  match text.find? (!inSpans passedOverSpans ·) with
  | some c => inSpans casedSpans c
  | none => false

/-- Writes small letters, given the reversed text that has already been passed. -/
def lowerAfter : List Char → List Char → List Char
  | _, [] => []
  | before, c :: rest =>
      let small :=
        if c = 'Σ' then if meetsCased before && !meetsCased rest then ['ς'] else ['σ']
        else mapCase lowerExpansions lowerShifts c
      small ++ lowerAfter (c :: before) rest

def lower (text : List Char) : List Char := lowerAfter [] text

end ShellLisp.Text
