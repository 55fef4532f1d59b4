import ShellLisp.Text.Utf8

/-!
# Text as bytes

Every text is what its bytes encode. The first byte of a character says how many follow and, where
not every byte could, which ones may come next; a shorter spelling of the same number and the numbers
that are no characters stay outside.
-/

namespace ShellLisp.Text

/-! ## First bytes -/

theorem Lead.of?_two {high : Nat} (long : 2 ≤ high) (short : high < 32) :
    Lead.of? (0xC0 + high) = some ⟨high, 1, 0x80, 0xBF⟩ := by
  have bits : 0xC0 + high - 0xC0 = high := by omega
  rw [Lead.of?, if_neg (by omega), if_neg (by omega), if_pos (by omega), bits]

theorem Lead.of?_three {high next : Nat} (short : high < 16) (long : 0 < high ∨ 32 ≤ next)
    (noHalf : high = 13 → next < 32) (isTail : next < 64) : ∃ least most,
    Lead.of? (0xE0 + high) = some ⟨high, 2, least, most⟩ ∧
      least ≤ 0x80 + next ∧ 0x80 + next ≤ most := by
  have bits : 0xE0 + high - 0xE0 = high := by omega
  rw [Lead.of?, if_neg (by omega), if_neg (by omega), if_neg (by omega), bits]
  by_cases first : high = 0
  · subst first
    exact ⟨0xA0, 0xBF, rfl, by omega, by omega⟩
  · rw [if_neg (by omega)]
    by_cases half : high = 13
    · subst half
      exact ⟨0x80, 0x9F, rfl, by omega, by omega⟩
    · rw [if_neg (by omega), if_pos (by omega)]
      exact ⟨0x80, 0xBF, rfl, by omega, by omega⟩

theorem Lead.of?_four {high next : Nat} (short : high ≤ 4) (long : 0 < high ∨ 16 ≤ next)
    (inside : high = 4 → next < 16) (isTail : next < 64) : ∃ least most,
    Lead.of? (0xF0 + high) = some ⟨high, 3, least, most⟩ ∧
      least ≤ 0x80 + next ∧ 0x80 + next ≤ most := by
  have bits : 0xF0 + high - 0xF0 = high := by omega
  rw [Lead.of?, if_neg (by omega), if_neg (by omega), if_neg (by omega), if_neg (by omega),
    if_neg (by omega), if_neg (by omega), bits]
  by_cases first : high = 0
  · subst first
    exact ⟨0x90, 0xBF, rfl, by omega, by omega⟩
  · rw [if_neg (by omega)]
    by_cases last : high = 4
    · subst last
      exact ⟨0x80, 0x8F, rfl, by omega, by omega⟩
    · rw [if_pos (by omega)]
      exact ⟨0x80, 0xBF, rfl, by omega, by omega⟩

/-! ## Characters -/

theorem readTail_byte {least most next : Nat} (inside : least ≤ 0x80 + next ∧ 0x80 + next ≤ most)
    (isTail : next < 64) (more code seen : Nat) (rest : List UInt8) :
    readTail (more + 1) code least most seen (UInt8.ofNat (0x80 + next) :: rest) =
      readTail more (code * 64 + next) 0x80 0xBF (seen + 1) rest := by
  have value : (UInt8.ofNat (0x80 + next)).toNat = 0x80 + next :=
    UInt8.toNat_ofNat_of_lt' (show 0x80 + next < 256 by omega)
  have bits : 0x80 + next - 0x80 = next := by omega
  rw [readTail, value, if_pos inside, bits]

theorem readTail_tail {next : Nat} (isTail : next < 64) (more code seen : Nat)
    (rest : List UInt8) :
    readTail (more + 1) code 0x80 0xBF seen (UInt8.ofNat (0x80 + next) :: rest) =
      readTail more (code * 64 + next) 0x80 0xBF (seen + 1) rest :=
  readTail_byte (by omega) isTail more code seen rest

theorem decodeFrom_cons {byte code seen offset : Nat} {lead : Lead} {rest : List UInt8}
    (isByte : byte < 256) (leads : Lead.of? byte = some lead)
    (read : readTail lead.more lead.bits lead.least lead.most 0 rest = .ok (code, seen)) :
    decodeFrom offset (UInt8.ofNat byte :: rest) =
      (decodeFrom (offset + seen + 1) (rest.drop seen)).map (Char.ofNat code :: ·) := by
  have value : (UInt8.ofNat byte).toNat = byte := UInt8.toNat_ofNat_of_lt' isByte
  rw [decodeFrom, value, leads]
  dsimp only
  rw [read]

section
variable {code : Nat} (offset : Nat) (rest : List UInt8)

theorem decodeFrom_one (short : code < 0x80) :
    decodeFrom offset (UInt8.ofNat code :: rest) =
      (decodeFrom (offset + 1) rest).map (Char.ofNat code :: ·) := by
  have leads : Lead.of? code = some ⟨code, 0, 0x80, 0xBF⟩ := by rw [Lead.of?, if_pos short]
  exact decodeFrom_cons (by omega) leads rfl

theorem decodeFrom_two (long : 0x80 ≤ code) (short : code < 0x800) :
    decodeFrom offset
        (UInt8.ofNat (0xC0 + code / 64) :: UInt8.ofNat (0x80 + code % 64) :: rest) =
      (decodeFrom (offset + 1 + 1) rest).map (Char.ofNat code :: ·) := by
  have read : readTail 1 (code / 64) 0x80 0xBF 0 (UInt8.ofNat (0x80 + code % 64) :: rest) =
      .ok (code, 1) := by
    have whole : code / 64 * 64 + code % 64 = code := by omega
    rw [readTail_tail (by omega), whole]
    rfl
  exact decodeFrom_cons (by omega) (Lead.of?_two (by omega) (by omega)) read

theorem decodeFrom_three (long : 0x800 ≤ code) (short : code < 0x10000)
    (noHalf : code < 0xD800 ∨ 0xDFFF < code) :
    decodeFrom offset (UInt8.ofNat (0xE0 + code / 4096) ::
        UInt8.ofNat (0x80 + code / 64 % 64) :: UInt8.ofNat (0x80 + code % 64) :: rest) =
      (decodeFrom (offset + 2 + 1) rest).map (Char.ofNat code :: ·) := by
  obtain ⟨least, most, leads, inside⟩ : ∃ least most,
      Lead.of? (0xE0 + code / 4096) = some ⟨code / 4096, 2, least, most⟩ ∧
        least ≤ 0x80 + code / 64 % 64 ∧ 0x80 + code / 64 % 64 ≤ most :=
    Lead.of?_three (by omega) (by omega) (by omega) (by omega)
  have read : readTail 2 (code / 4096) least most 0 (UInt8.ofNat (0x80 + code / 64 % 64) ::
      UInt8.ofNat (0x80 + code % 64) :: rest) = .ok (code, 2) := by
    have whole : (code / 4096 * 64 + code / 64 % 64) * 64 + code % 64 = code := by omega
    rw [readTail_byte inside (by omega), readTail_tail (by omega), whole]
    rfl
  exact decodeFrom_cons (by omega) leads read

theorem decodeFrom_four (long : 0x10000 ≤ code) (short : code < 0x110000) :
    decodeFrom offset (UInt8.ofNat (0xF0 + code / 262144) ::
        UInt8.ofNat (0x80 + code / 4096 % 64) :: UInt8.ofNat (0x80 + code / 64 % 64) ::
          UInt8.ofNat (0x80 + code % 64) :: rest) =
      (decodeFrom (offset + 3 + 1) rest).map (Char.ofNat code :: ·) := by
  obtain ⟨least, most, leads, inside⟩ : ∃ least most,
      Lead.of? (0xF0 + code / 262144) = some ⟨code / 262144, 3, least, most⟩ ∧
        least ≤ 0x80 + code / 4096 % 64 ∧ 0x80 + code / 4096 % 64 ≤ most :=
    Lead.of?_four (by omega) (by omega) (by omega) (by omega)
  have read : readTail 3 (code / 262144) least most 0
      (UInt8.ofNat (0x80 + code / 4096 % 64) :: UInt8.ofNat (0x80 + code / 64 % 64) ::
        UInt8.ofNat (0x80 + code % 64) :: rest) = .ok (code, 3) := by
    have whole : ((code / 262144 * 64 + code / 4096 % 64) * 64 + code / 64 % 64) * 64 +
        code % 64 = code := by omega
    rw [readTail_byte inside (by omega), readTail_tail (by omega), readTail_tail (by omega), whole]
    rfl
  exact decodeFrom_cons (by omega) leads read

end

theorem decodeFrom_encodeChar (c : Char) (offset : Nat) (rest : List UInt8) :
    ∃ behind, decodeFrom offset (encodeChar c ++ rest) = (decodeFrom behind rest).map (c :: ·) := by
  have isChar : c.toNat < 0xD800 ∨ 0xDFFF < c.toNat ∧ c.toNat < 0x110000 := c.valid
  have same : Char.ofNat c.toNat = c := Char.ofNat_toNat c
  unfold encodeChar
  generalize c.toNat = code at isChar same
  subst same
  simp only [Nat.div_one]
  split
  · exact ⟨_, decodeFrom_one offset rest (by omega)⟩
  · split
    · exact ⟨_, decodeFrom_two offset rest (by omega) (by omega)⟩
    · split
      · exact ⟨_, decodeFrom_three offset rest (by omega) (by omega) (by omega)⟩
      · exact ⟨_, decodeFrom_four offset rest (by omega) (by omega)⟩

theorem decodeFrom_encode (text : List Char) (offset : Nat) :
    decodeFrom offset (encode text) = .ok text := by
  induction text generalizing offset with
  | nil => rw [encode, List.flatMap_nil, decodeFrom]
  | cons c rest ih =>
      obtain ⟨behind, decoded⟩ := decodeFrom_encodeChar c offset (encode rest)
      have bytes : encode (c :: rest) = encodeChar c ++ encode rest := List.flatMap_cons
      rw [bytes, decoded, ih]
      rfl

theorem decode_encode (text : List Char) : decode (encode text) = .ok text := by
  rw [decode, decodeFrom_encode]

theorem encode_append (first second : List Char) :
    encode (first ++ second) = encode first ++ encode second := List.flatMap_append

end ShellLisp.Text
