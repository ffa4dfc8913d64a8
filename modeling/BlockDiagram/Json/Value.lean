import BlockDiagram.Decimal.Single

/-!
# JSON values

Trees of values and their text, spread over lines. Objects keep their fields in order. Every nested
value has a line of its own, two blanks further in than the value around it; empty lists and objects
stay on one line.
-/

namespace BlockDiagram

/-- A value of the JSON format. -/
inductive Json where
  | null
  | flag (b : Bool)
  | integer (n : Int)
  | single (x : Float32)
  | text (s : String)
  | list (items : List Json)
  | object (fields : List (String × Json))
  deriving Inhabited

namespace Json

/-- The layout of numbers: an exponent from ten to the thirteenth on and below a millionth, and always
a fraction without one. Of two equally near decimals the even one is written. -/
def numberLayout : Decimal.Layout where
  positional := some (-6, 12)
  keepsFraction := true
  tie := .toEven

/-- The text of a number; JSON has none for infinite or missing ones. -/
def writeSingle (x : Float32) : String :=
  if x.isFinite then String.ofList (Decimal.writeFinite numberLayout x) else "null"

/-- The escapes of two characters. -/
def shortEscapes : List (Char × String) :=
  [('\x22', "\\\""), ('\\', "\\\\"), ('\x08', "\\b"), ('\x0c', "\\f"), ('\n', "\\n"),
    ('\r', "\\r"), ('\t', "\\t")]

/-- The form of a character inside of a text. -/
def escapeChar (c : Char) : String :=
  match shortEscapes.lookup c with
  | some escape => escape
  | none =>
    if c.toNat < 0x20 then
      let digits := Nat.toDigits 16 c.toNat
      "\\u" ++ String.ofList (List.replicate (4 - digits.length) '0' ++ digits)
    else c.toString

/-- A text between quotation marks. -/
def writeText (s : String) : String :=
  "\"" ++ String.join (s.toList.map escapeChar) ++ "\""

/-- The end of a line and the start of the next one, `depth` values deep. -/
def newline (depth : Nat) : String :=
  String.ofList ('\n' :: List.replicate (2 * depth) ' ')

mutual

/-- The text of a value that lies `depth` values deep. -/
def write (depth : Nat) : Json → String
  | null => "null"
  | flag b => if b then "true" else "false"
  | integer n => toString n
  | single x => writeSingle x
  | text s => writeText s
  | list [] => "[]"
  | list (item :: items) =>
    "[" ++ newline (depth + 1) ++ item.write (depth + 1) ++ writeItems (depth + 1) items ++
      newline depth ++ "]"
  | object [] => "\x7b\x7d"
  | object ((name, value) :: fields) =>
    "\x7b" ++ newline (depth + 1) ++ writeText name ++ ": " ++ value.write (depth + 1) ++
      writeFields (depth + 1) fields ++ newline depth ++ "\x7d"

/-- The texts of the items of a list behind the first one. -/
def writeItems (depth : Nat) : List Json → String
  | [] => ""
  | item :: items => "," ++ newline depth ++ item.write depth ++ writeItems depth items

/-- The texts of the fields of an object behind the first one. -/
def writeFields (depth : Nat) : List (String × Json) → String
  | [] => ""
  | (name, value) :: fields =>
    "," ++ newline depth ++ writeText name ++ ": " ++ value.write depth ++ writeFields depth fields

end

/-- The text of a value. -/
def pretty (value : Json) : String :=
  value.write 0

end Json

end BlockDiagram
