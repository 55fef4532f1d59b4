/-!
# Quoted text

The double-quoted source form of a text, and reading such a form back. Between double quotes a
backslash starts an escape; an unknown escape stands for itself. The main statement is that
reading the written form gives the text.
-/

namespace ShellLisp.Text

def escapeChar : Char → List Char
  | '\\' => ['\\', '\\']
  | '"' => ['\\', '"']
  | '\n' => ['\\', 'n']
  | '\t' => ['\\', 't']
  | '\r' => ['\\', 'r']
  | c => [c]

/-- The characters that an escape stands for, given the character after the backslash. -/
def unescapeChar : Char → List Char
  | 'n' => ['\n']
  | 't' => ['\t']
  | 'r' => ['\r']
  | '\\' => ['\\']
  | '"' => ['"']
  | '\'' => ['\'']
  | c => ['\\', c]

def escaped (text : List Char) : List Char := text.flatMap escapeChar

def quoted (text : List Char) : List Char := '"' :: escaped text ++ ['"']

def quote (text : String) : String := String.ofList (quoted text.toList)

/-- What a quoted text holds, how many characters its inside has, and what follows it. -/
structure QuotedPart where
  content : List Char
  inside : List Char
  rest : List Char

def QuotedPart.prepend (content inside : List Char) (part : QuotedPart) : QuotedPart :=
  { part with content := content ++ part.content, inside := inside ++ part.inside }

/-- Reads up to the closing quote, when there is one. Only double quotes know escapes. -/
def readQuoted (quote : Char) : List Char → Option QuotedPart
  | [] => none
  | [c] => if c = quote then some ⟨[], [], []⟩ else none
  | c :: next :: rest =>
      if c = quote then some ⟨[], [], next :: rest⟩
      else if c = '\\' ∧ quote = '"' then
        (readQuoted quote rest).map (·.prepend (unescapeChar next) [c, next])
      else (readQuoted quote (next :: rest)).map (·.prepend [c] [c])

theorem readQuoted_plain {c : Char} (notQuote : c ≠ '"') (notEscape : c ≠ '\\') (rest : List Char) :
    readQuoted '"' (c :: rest) = (readQuoted '"' rest).map (·.prepend [c] [c]) := by
  cases rest with
  | nil => simp [readQuoted, notQuote]
  | cons next rest => simp [readQuoted, notQuote, notEscape]

theorem readQuoted_escape (next : Char) (rest : List Char) :
    readQuoted '"' ('\\' :: next :: rest) =
      (readQuoted '"' rest).map (·.prepend (unescapeChar next) ['\\', next]) := by
  simp [readQuoted]

theorem readQuoted_close (rest : List Char) :
    readQuoted '"' ('"' :: rest) = some ⟨[], [], rest⟩ := by
  cases rest <;> simp [readQuoted]

theorem readQuoted_escapeChar (c : Char) (rest : List Char) :
    readQuoted '"' (escapeChar c ++ rest) =
      (readQuoted '"' rest).map (·.prepend [c] (escapeChar c)) := by
  unfold escapeChar
  split <;> first
    | exact readQuoted_escape _ _
    | (rename_i notEscape notQuote _ _ _; exact readQuoted_plain notQuote notEscape rest)

theorem readQuoted_escaped (text rest : List Char) :
    readQuoted '"' (escaped text ++ '"' :: rest) = some ⟨text, escaped text, rest⟩ := by
  induction text with
  | nil => exact readQuoted_close rest
  | cons c text ih =>
      have grouped : escaped (c :: text) ++ '"' :: rest =
          escapeChar c ++ (escaped text ++ '"' :: rest) := by simp [escaped]
      rw [grouped, readQuoted_escapeChar, ih]
      simp [QuotedPart.prepend, escaped]

end ShellLisp.Text
