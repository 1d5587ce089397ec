import ScopedScript.Text.CharClass

/-! # Quoted forms

The quoted forms of a character and of a text, as messages and debug output show them.  The null
character, tab, line feed, carriage return and backslash are written as a backslash and a letter,
the delimiter of the form as a backslash and the delimiter; every other character that is not
plain is written by its code point, `\u{…}` with lower-case hexadecimal digits. -/

namespace ScopedScript.Text

/-- A code point spelled out. -/
def codePointEscape (c : Char) : String :=
  "\\u\x7b" ++ String.ofList (Nat.toDigits 16 c.toNat) ++ "\x7d"

/-- One character inside a quoted form with the given delimiter. -/
def escapeChar (delimiter c : Char) : String :=
  if c == '\x00' then "\\0"
  else if c == '\t' then "\\t"
  else if c == '\r' then "\\r"
  else if c == '\n' then "\\n"
  else if c == '\\' then "\\\\"
  else if c == delimiter then String.ofList ['\\', c]
  else if isPlain c then String.singleton c
  else codePointEscape c

/-- A character in single quotes. -/
def quoteChar (c : Char) : String := "'" ++ escapeChar '\x27' c ++ "'"

/-- A text in double quotes. -/
def quote (s : String) : String :=
  "\"" ++ String.join (s.toList.map (escapeChar '"')) ++ "\""

end ScopedScript.Text
