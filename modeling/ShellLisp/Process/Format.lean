import ShellLisp.Json.Reader
import ShellLisp.Process.Basic
import ShellLisp.Store.Template

/-!
# Formatted output

The command that writes its arguments as a format says. The format is used again as long as
arguments are left. The stand-alone command and the one inside a shell differ in their messages and
in the escapes and conversions they know.
-/

namespace ShellLisp.Process.Format

structure Dialect where
  /-- What messages start with. -/
  speaker : String
  isAlone : Bool
  notNumeric : String → String
  notAllNumeric : String → String
  outOfRange : String → String
  /-- The message on arguments that a format takes no notice of, if there is one. -/
  excess : String → Option String
  unknown : String → String
  incomplete : String → String
  unusable : Int
  noFormat : String

/-- The stand-alone command, under the name that it was called by. -/
def standAlone (name : String) : Dialect :=
  { speaker := name ++ ": "
    isAlone := true
    notNumeric := fun text => "‘" ++ text ++ "’: expected a numeric value"
    notAllNumeric := fun text => "‘" ++ text ++ "’: value not completely converted"
    outOfRange := fun text => "‘" ++ text ++ "’: Numerical result out of range"
    excess := fun text =>
      some ("warning: ignoring excess arguments, starting with ‘" ++ text ++ "’")
    unknown := fun conversion => conversion ++ ": invalid conversion specification"
    incomplete := fun conversion => conversion ++ ": invalid conversion specification"
    unusable := 1
    noFormat := "missing operand\nTry '" ++ name ++ " --help' for more information." }

/-- The command inside a shell, whose messages start as given. -/
def inShell (speaker : String) : Dialect :=
  { speaker := speaker ++ "printf: "
    isAlone := false
    notNumeric := fun text => text ++ ": expected numeric value"
    notAllNumeric := fun text => text ++ ": not completely converted"
    outOfRange := fun text => text ++ ": Numerical result out of range"
    excess := fun _ => none
    unknown := fun conversion => conversion ++ ": invalid directive"
    incomplete := fun _ => "missing format character"
    unusable := 2
    noFormat := "usage: printf format [arg ...]" }

/-- Formatting so far: what is written, the arguments left, the messages, the status, and whether
the output has ended before the format. -/
structure Progress where
  written : List UInt8
  arguments : List String
  messages : List String
  status : Int
  ended : Bool

namespace Progress

def start (arguments : List String) : Progress := ⟨[], arguments, [], 0, false⟩

def write (progress : Progress) (bytes : List UInt8) : Progress :=
  { progress with written := progress.written ++ bytes }

/-- Takes an argument off; an argument that is missing is empty. -/
def take (progress : Progress) : String × Progress :=
  match progress.arguments with
  | [] => ("", progress)
  | first :: rest => (first, { progress with arguments := rest })

def note (progress : Progress) (message : Option String) : Progress :=
  match message with
  | none => progress
  | some text => { progress with messages := progress.messages ++ [text], status := 1 }

def giveUp (progress : Progress) (dialect : Dialect) (message : String) : Progress :=
  { progress with
    messages := progress.messages ++ [message]
    status := dialect.unusable
    ended := true }

end Progress

/-- The value of digits in a base, as far as they go, and what follows them. -/
def readDigits (base : Nat) : List Char → Nat → Nat × List Char
  | [], value => (value, [])
  | c :: rest, value =>
      match Json.hexDigit? c with
      | some digit =>
          if digit < base then readDigits base rest (base * value + digit) else (value, c :: rest)
      | none => (value, c :: rest)

/-- The digits of a number without its sign, after a mark of their base. -/
def readUnsigned : List Char → Option (Nat × List Char)
  | '0' :: 'x' :: c :: rest | '0' :: 'X' :: c :: rest =>
      if (Json.hexDigit? c).isSome then some (readDigits 16 (c :: rest) 0)
      else some (0, 'x' :: c :: rest)
  | '0' :: rest => some (readDigits 8 rest 0)
  | c :: rest => if c.isDigit then some (readDigits 10 (c :: rest) 0) else none
  | [] => none

def readSign : List Char → Bool × List Char
  | '-' :: rest => (true, rest)
  | '+' :: rest => (false, rest)
  | text => (false, text)

def wordSize : Nat := twoTo 64

/-- The word nearest to an integer, and whether the integer is a word. A word with a sign is cut to
its range; one without takes a negative integer around the end of its range. -/
def wordOf (signed : Bool) (n : Int) : Int × Bool :=
  let half : Int := wordSize / 2
  if signed then
    if n < -half then (-half, false) else if half ≤ n then (half - 1, false) else (n, true)
  else if (wordSize : Int) ≤ n.natAbs then (wordSize - 1, false)
  else (n % wordSize, true)

/-- The word that an argument writes, and a complaint when it does not write one. -/
def integerOf (dialect : Dialect) (signed : Bool) (text : String) : Int × Option String :=
  match text.toList.dropWhile Text.isBlank with
  | [] => (0, if text.isEmpty then none else some (dialect.notNumeric text))
  | '"' :: c :: _ | '\'' :: c :: _ => (c.toNat, none)
  | digits =>
      let (negative, unsigned) := readSign digits
      match readUnsigned unsigned with
      | none => (0, some (dialect.notNumeric text))
      | some (value, rest) =>
          let (word, isWord) := wordOf signed (Binary64.signed negative value)
          (word,
            if !isWord then some (dialect.outOfRange text)
            else if rest.isEmpty then none
            else some (dialect.notAllNumeric text))

/-- The floating-point number that a text without sign writes from its start to its end. -/
def wholeReal? (text : List Char) : Option Float :=
  let name := String.ofList (text.map Char.toLower)
  if name = "inf" ∨ name = "infinity" then some (Binary64.infinity false)
  else if name = "nan" then some Binary64.notANumber
  else
    match readUnsigned text with
    | some (value, []) =>
        if (text.take 2).any (fun c => c == 'x' || c == 'X') then some (Float.ofNat value)
        else (Decimal.Numeral.read? text).map (·.float)
    | _ => (Decimal.Numeral.read? text).map (·.float)

/-- The floating-point number that the longest possible start of a text writes, and the rest. -/
def readReal (text : List Char) : Option (Float × List Char) :=
  (List.range text.length).reverse.findSome? fun count =>
    (wholeReal? (text.take (count + 1))).map fun x => (x, text.drop (count + 1))

/-- The floating-point number that an argument writes, and a complaint when it does not. -/
def realOf (dialect : Dialect) (text : String) : Float × Option String :=
  match text.toList.dropWhile Text.isBlank with
  | [] => (0, if text.isEmpty then none else some (dialect.notNumeric text))
  | '"' :: c :: _ | '\'' :: c :: _ => (Float.ofNat c.toNat, none)
  | digits =>
      let (negative, unsigned) := readSign digits
      match readReal unsigned with
      | none => (0, some (dialect.notNumeric text))
      | some (x, rest) =>
          (if negative then -x else x,
            if rest.isEmpty then none else some (dialect.notAllNumeric text))

/-- The byte of an octal escape with at most the given number of digits, and what follows. -/
def readOctal : Nat → List Char → Nat → Nat × List Char
  | 0, text, value => (value, text)
  | count + 1, c :: rest, value =>
      if '0' ≤ c ∧ c ≤ '7' then readOctal count rest (8 * value + (c.toNat - 48))
      else (value, c :: rest)
  | _ + 1, [], value => (value, [])

/-- At most the given number of hexadecimal digits at the start of a text, and what follows. -/
def readHexadecimal (most : Nat) (text : List Char) : Nat × List Char :=
  let digits := (text.take most).takeWhile fun c => (Json.hexDigit? c).isSome
  ((readDigits 16 digits 0).1, text.drop digits.length)

/-- The bytes of an escape that only the stand-alone command knows, and what follows. -/
def readOwnEscape : List Char → Option (List UInt8 × List Char)
  | '"' :: rest => some ([34], rest)
  | 'x' :: rest =>
      let (value, after) := readHexadecimal 2 rest
      some ([UInt8.ofNat value], after)
  | 'u' :: rest =>
      let (value, after) := readHexadecimal 4 rest
      some (Text.encodeChar (Char.ofNat value), after)
  | 'U' :: rest =>
      let (value, after) := readHexadecimal 8 rest
      some (Text.encodeChar (Char.ofNat value), after)
  | _ => none

/-- The bytes of an escape behind a backslash, and what follows; none where the output ends, which
an escape can only say inside an argument or to the stand-alone command. -/
def readEscape (dialect : Dialect) (inArgument : Bool) (text : List Char) :
    Option (List UInt8 × List Char) :=
  match text with
  | 'a' :: rest => some ([7], rest)
  | 'b' :: rest => some ([8], rest)
  | 'e' :: rest => some ([27], rest)
  | 'f' :: rest => some ([12], rest)
  | 'n' :: rest => some ([10], rest)
  | 'r' :: rest => some ([13], rest)
  | 't' :: rest => some ([9], rest)
  | 'v' :: rest => some ([11], rest)
  | '\\' :: rest => some ([92], rest)
  | c :: rest =>
      if c = 'c' && (inArgument || dialect.isAlone) then none
      else if '0' ≤ c ∧ c ≤ '7' then
        let (value, after) :=
          if inArgument && c == '0' then readOctal 3 rest 0 else readOctal 3 (c :: rest) 0
        some ([UInt8.ofNat value], after)
      else
        match if dialect.isAlone then readOwnEscape (c :: rest) else none with
        | some found => some found
        | none => some (92 :: Text.encodeChar c, rest)
  | [] => some ([92], [])

/-- A text with its escapes replaced, and whether one of them ended the output. -/
def expandEscapes (dialect : Dialect) : Nat → List Char → List UInt8 × Bool
  | 0, _ => ([], false)
  | _ + 1, [] => ([], false)
  | bound + 1, '\\' :: rest =>
      match readEscape dialect true rest with
      | none => ([], true)
      | some (bytes, after) =>
          let (others, ended) := expandEscapes dialect bound after
          (bytes ++ others, ended)
  | bound + 1, c :: rest =>
      let (others, ended) := expandEscapes dialect bound rest
      (Text.encodeChar c ++ others, ended)

/-- A conversion: its place, its letter, and how it is written. -/
structure Conversion where
  place : Place
  letter : Char
  written : String

namespace Conversion

/-- Bytes in the place of a conversion; its width and precision count bytes. -/
def bytes (conversion : Conversion) (found : List UInt8) : List UInt8 :=
  let shown := match conversion.place.precision with
    | some most => found.take most
    | none => found
  let padded := conversion.place.arrange false 0 (shown.map fun byte => Char.ofNat byte.toNat)
  padded.map fun c => UInt8.ofNat c.toNat

/-- A number in the place of a conversion, after a mark of its base. -/
def number (conversion : Conversion) (base : Nat) (text : List Char) : List UInt8 :=
  Text.encode (conversion.place.arrange true base (Place.likeLetter conversion.letter text))

/-- An integer in the place of a conversion; a precision leaves no zeros to the width. -/
def integer (conversion : Conversion) (n : Int) (mark digits : List Char) : List UInt8 :=
  let place := conversion.place
  let flags := { place.flags with zero := place.flags.zero && place.precision.isNone }
  let base := if place.flags.alternate && n ≠ 0 then mark else []
  let text := { place with flags }.integerText n base digits
  { conversion with place := { place with flags } }.number base.length text

def isUsable (conversion : Conversion) : Bool :=
  let flags := conversion.place.flags
  let letter := conversion.letter
  !(flags.alternate && ['c', 'd', 'i', 's', 'u'].contains letter) &&
    !(flags.zero && ['c', 's'].contains letter) &&
    !(conversion.place.precision.isSome && letter == 'c') &&
    !(['b', 'q'].contains letter && conversion.written.length != 2)

def write (conversion : Conversion) (dialect : Dialect) (progress : Progress) : Progress :=
  let letter := conversion.letter
  let (argument, after) := progress.take
  if dialect.isAlone && !conversion.isUsable then
    after.giveUp dialect (dialect.unknown conversion.written)
  else
    match letter with
    | 's' => after.write (conversion.bytes (bytesOf argument))
    | 'c' =>
        let first := (bytesOf argument).headD 0
        after.write ({ conversion with place.precision := none }.bytes [first])
    | 'b' =>
        let (found, ended) := expandEscapes dialect (argument.length + 1) argument.toList
        { after.write (conversion.bytes found) with ended }
    | 'd' | 'i' =>
        let (n, complaint) := integerOf dialect true argument
        (after.note complaint).write (conversion.integer n [] (Decimal.digitsOf n.natAbs))
    | 'u' =>
        let (n, complaint) := integerOf dialect false argument
        (after.note complaint).write (conversion.integer n [] (Decimal.digitsOf n.natAbs))
    | 'o' =>
        let (n, complaint) := integerOf dialect false argument
        (after.note complaint).write (conversion.integer n ['0'] (Nat.toDigits 8 n.natAbs))
    | 'x' | 'X' =>
        let (n, complaint) := integerOf dialect false argument
        (after.note complaint).write (conversion.integer n ['0', 'x'] (Nat.toDigits 16 n.natAbs))
    | _ =>
        match Place.roundedForm? letter with
        | some form =>
            let place := conversion.place
            let (x, complaint) := realOf dialect argument
            let text := Decimal.roundedText form place.flags.alternate (place.precision.getD 6)
              (.ofFloat x)
            (after.note complaint).write (conversion.number 0 text)
        | none =>
            if letter = 'q' && dialect.isAlone then after.write (bytesOf (quotedName argument))
            else after.giveUp dialect (dialect.unknown conversion.written)

end Conversion

def readCount (dialect : Dialect) (progress : Progress) : List Char → Int × Progress × List Char
  | '*' :: rest =>
      let (argument, after) := progress.take
      let (n, complaint) := integerOf dialect true argument
      (n, after.note complaint, rest)
  | text =>
      let (digits, rest) := Place.digits text
      (digits, progress, rest)

/-- Drops the letters that say how large a number is, which only the stand-alone command knows. -/
def dropSizes (dialect : Dialect) (text : List Char) : List Char :=
  if dialect.isAlone then text.dropWhile fun c => ['h', 'l', 'L', 'j', 't', 'z'].contains c
  else text

/-- Reads a conversion behind its percent sign: its place, the arguments that are left, and the text
from its letter on. -/
def readPlace (dialect : Dialect) (progress : Progress) (text : List Char) :
    Place × Progress × List Char :=
  let (flags, text) := TemplateFlags.empty.read text
  let (width, progress, text) := readCount dialect progress text
  let flags := { flags with left := flags.left || width < 0 }
  match text with
  | '.' :: more =>
      let (precision, after, rest) := readCount dialect progress more
      let given := if precision < 0 then none else some precision.toNat
      (⟨flags, width.natAbs, given⟩, after, dropSizes dialect rest)
  | _ => (⟨flags, width.natAbs, none⟩, progress, dropSizes dialect text)

/-- Uses a format once, of which no more than `bound` characters are left. -/
def useFormat (dialect : Dialect) : Nat → List Char → Progress → Progress
  | 0, _, progress => progress
  | _ + 1, [], progress => progress
  | bound + 1, '%' :: '%' :: rest, progress => useFormat dialect bound rest (progress.write [37])
  | bound + 1, '%' :: rest, progress =>
      let (place, progress, text) := readPlace dialect progress rest
      let written (count : Nat) : String := String.ofList ('%' :: rest.take count)
      match text with
      | [] => progress.giveUp dialect (dialect.incomplete (written rest.length))
      | letter :: after =>
          let conversion : Conversion := ⟨place, letter, written (rest.length - after.length)⟩
          let next := conversion.write dialect progress
          if next.ended then next else useFormat dialect bound after next
  | bound + 1, '\\' :: rest, progress =>
      match readEscape dialect false rest with
      | none => { progress with ended := true }
      | some (bytes, after) => useFormat dialect bound after (progress.write bytes)
  | bound + 1, c :: rest, progress =>
      useFormat dialect bound rest (progress.write (Text.encodeChar c))

/-- Uses a format until no argument is left or it takes none. -/
def useAll (dialect : Dialect) (format : List Char) : Nat → Progress → Progress
  | 0, progress => progress
  | bound + 1, progress =>
      let next := useFormat dialect (format.length + 1) format progress
      if next.ended || next.arguments.isEmpty ||
          next.arguments.length == progress.arguments.length then next
      else useAll dialect format bound next

/-- An argument that the command inside a shell takes for an option, if there is one. -/
def option? (dialect : Dialect) (arguments : List String) : Option Char :=
  match dialect.isAlone, (arguments.headD "").toList with
  | false, '-' :: c :: _ => if c = '-' then none else some c
  | _, _ => none

def run (dialect : Dialect) (arguments : List String) : Result :=
  match option? dialect arguments with
  | some c => .complaint 2 (dialect.speaker ++ "Illegal option -" ++ c.toString ++ "\n")
  | none =>
      match if arguments.head? == some "--" then arguments.tail else arguments with
      | [] => .complaint dialect.unusable (dialect.speaker ++ dialect.noFormat ++ "\n")
      | format :: rest =>
          let done := useAll dialect format.toList (rest.length + 1) (.start rest)
          let warning := if done.ended then none else done.arguments.head?.bind dialect.excess
          let errors := (done.messages ++ warning.toList).map fun message =>
            dialect.speaker ++ message ++ "\n"
          ⟨done.status, done.written, bytesOf (String.join errors)⟩

end ShellLisp.Process.Format
