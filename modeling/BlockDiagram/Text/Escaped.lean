import BlockDiagram.Text.Hidden

/-!
# Escaped characters

How a message shows a character that could not be told apart when written as it is. A backslash
introduces the short forms, and every other hidden character is written as its code point in
hexadecimal.
-/

namespace BlockDiagram.Text

/-- The hexadecimal digits of a number, in lower case and without leading zeros. -/
def hexDigits (n : Nat) : String :=
  String.ofList (Nat.toDigits 16 n)

/-- The form of a character inside a message, where the characters in `quotes` need a backslash. -/
def escapeChar (quotes : List Char) (c : Char) : String :=
  if c = '\x00' then "\\0"
  else if c = '\t' then "\\t"
  else if c = '\r' then "\\r"
  else if c = '\n' then "\\n"
  else if c = '\\' || quotes.contains c then String.ofList ['\\', c]
  else if isHidden c then "\\u\x7b" ++ hexDigits c.toNat ++ "\x7d"
  else c.toString

/-- A character as a message names it, with both kinds of quotation marks escaped. -/
def escaped (c : Char) : String :=
  escapeChar ['\x22', '\x27'] c

/-- A text between double quotation marks, in which only the double one is escaped. -/
def quoted (s : String) : String :=
  "\"" ++ String.join (s.toList.map (escapeChar ['\x22'])) ++ "\""

end BlockDiagram.Text
