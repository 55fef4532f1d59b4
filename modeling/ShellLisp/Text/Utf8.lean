import ShellLisp.Fault
import ShellLisp.Text.Literal

/-!
# UTF-8

Text as bytes and bytes as text. Bytes that encode no text are reported with the span of the first
of them: a byte that starts nothing, a sequence broken off by another byte, or one cut short by the
end.
-/

namespace ShellLisp.Text

def encodeChar (c : Char) : List UInt8 :=
  let code := c.toNat
  let tail (unit : Nat) : UInt8 := UInt8.ofNat (0x80 + code / unit % 64)
  if code < 0x80 then [UInt8.ofNat code]
  else if code < 0x800 then [UInt8.ofNat (0xC0 + code / 64), tail 1]
  else if code < 0x10000 then [UInt8.ofNat (0xE0 + code / 4096), tail 64, tail 1]
  else [UInt8.ofNat (0xF0 + code / 262144), tail 4096, tail 64, tail 1]

def encode (text : List Char) : List UInt8 := text.flatMap encodeChar

inductive DecodeReason
  | start
  | continuation
  | cutShort
  deriving DecidableEq, Repr

def DecodeReason.message : DecodeReason → String
  | .start => "invalid start byte"
  | .continuation => "invalid continuation byte"
  | .cutShort => "unexpected end of data"

/-- What the first byte of a character says: the bits it has, how many bytes follow, and the range
of the next one. -/
structure Lead where
  bits : Nat
  more : Nat
  least : Nat
  most : Nat

def Lead.of? (byte : Nat) : Option Lead :=
  if byte < 0x80 then some ⟨byte, 0, 0x80, 0xBF⟩
  else if byte < 0xC2 then none
  else if byte < 0xE0 then some ⟨byte - 0xC0, 1, 0x80, 0xBF⟩
  else if byte = 0xE0 then some ⟨0, 2, 0xA0, 0xBF⟩
  else if byte = 0xED then some ⟨byte - 0xE0, 2, 0x80, 0x9F⟩
  else if byte < 0xF0 then some ⟨byte - 0xE0, 2, 0x80, 0xBF⟩
  else if byte = 0xF0 then some ⟨0, 3, 0x90, 0xBF⟩
  else if byte < 0xF4 then some ⟨byte - 0xF0, 3, 0x80, 0xBF⟩
  else if byte = 0xF4 then some ⟨4, 3, 0x80, 0x8F⟩
  else none

/-- Reads the bytes that follow a first byte: the code and the number of bytes read, or why not and
how many bytes were right. -/
def readTail : Nat → Nat → Nat → Nat → Nat → List UInt8 → Except (DecodeReason × Nat) (Nat × Nat)
  | 0, code, _, _, seen, _ => .ok (code, seen)
  | _ + 1, _, _, _, seen, [] => .error (.cutShort, seen)
  | more + 1, code, least, most, seen, byte :: rest =>
      if least ≤ byte.toNat ∧ byte.toNat ≤ most then
        readTail more (code * 64 + (byte.toNat - 0x80)) 0x80 0xBF (seen + 1) rest
      else .error (.continuation, seen)

structure DecodeError where
  reason : DecodeReason
  first : Nat
  count : Nat
  byte : Nat
  deriving DecidableEq, Repr

/-- The text that bytes encode, given the number of the first. -/
def decodeFrom (offset : Nat) : List UInt8 → Except DecodeError (List Char)
  | [] => .ok []
  | byte :: rest =>
      match Lead.of? byte.toNat with
      | none => .error ⟨.start, offset, 1, byte.toNat⟩
      | some lead =>
          match readTail lead.more lead.bits lead.least lead.most 0 rest with
          | .error (reason, seen) => .error ⟨reason, offset, seen + 1, byte.toNat⟩
          | .ok (code, seen) =>
              (decodeFrom (offset + seen + 1) (rest.drop seen)).map (Char.ofNat code :: ·)
termination_by bytes => bytes.length
decreasing_by simp only [List.length_cons, List.length_drop]; omega

def DecodeError.fault (error : DecodeError) : Fault :=
  let what :=
    if error.count = 1 then
      "byte 0x" ++ String.ofList (hexadecimal 2 error.byte) ++ " in position " ++
        toString error.first
    else
      "bytes in position " ++ toString error.first ++ "-" ++
        toString (error.first + error.count - 1)
  ⟨.decoding, "'utf-8' codec can't decode " ++ what ++ ": " ++ error.reason.message⟩

def decode (bytes : List UInt8) : Except Fault (List Char) :=
  match decodeFrom 0 bytes with
  | .ok text => .ok text
  | .error error => .error error.fault

end ShellLisp.Text
