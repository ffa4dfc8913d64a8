import BlockDiagram.Color.Names
import BlockDiagram.Decimal.Single
import BlockDiagram.Text.Blank

/-!
# Colors

Colors as style declarations write them: a name, hexadecimal digits behind a number sign, or a
function of components. A color is shown in the form it was written in, with its components as they
are stored.
-/

namespace BlockDiagram

/-- The form in which a color was written. -/
inductive Color.Form where
  | named (name : String)
  /-- Red, green and blue between zero and one. -/
  | rgb
  /-- A function of its own name. -/
  | function (name : String)
  /-- A point of a named color space. -/
  | space (name : String)
  deriving DecidableEq, Repr

/-- A color. A component that was left out counts as zero. -/
structure Color where
  form : Color.Form
  components : List (Option Float32)
  opacity : Option Float32

namespace Color

/-- The opacity, one for colors that hide what is behind them. -/
def alpha (c : Color) : Float32 :=
  c.opacity.getD 0

/-- Holds for colors that let something behind them be seen. -/
def isTranslucent (c : Color) : Bool :=
  c.alpha < 1

/-- The text of a component. -/
def showComponent (scale : Float32) : Option Float32 → String
  | none => "none"
  | some x => Decimal.showSingle (x * scale)

/-- The components between blanks, and the opacity behind a stroke where it matters. -/
def showComponents (c : Color) : String :=
  let shown := " ".intercalate (c.components.map (showComponent 1))
  if c.isTranslucent then shown ++ " / " ++ showComponent 1 c.opacity else shown

/-- The channels between commas, as multiples of the largest step. -/
def showChannels (c : Color) : String :=
  let channels := c.components.map (showComponent 255)
  ", ".intercalate
    (if c.isTranslucent then channels ++ [showComponent 1 c.opacity] else channels)

/-- The text of a color. -/
protected def toString (c : Color) : String :=
  match c.form with
  | .named name => name
  | .rgb => (if c.isTranslucent then "rgba(" else "rgb(") ++ c.showChannels ++ ")"
  | .function name => s!"{name}({c.showComponents})"
  | .space name => s!"color({name} {c.showComponents})"

/-- Why a text is no color. -/
inductive Reason where
  | wrongHexDigits
  | unfinishedEnd
  | unknownForm
  | unknownName
  | missingArguments
  | unknownComponent
  | unknownAngle
  | unknownAngleUnit
  | missingComma
  | missingClosing
  | missingSpace
  | unknownSpace
  deriving DecidableEq, Repr

namespace Reason

/-- The wording of a reason. -/
def message : Reason → String
  | wrongHexDigits => "wrong number of hex digits"
  | unfinishedEnd => "expected end of string"
  | unknownForm => "unknown color syntax"
  | unknownName => "unknown color identifier"
  | missingArguments => "expected arguments"
  | unknownComponent => "unknown color component"
  | unknownAngle => "unknown angle"
  | unknownAngleUnit => "unknown angle dimension"
  | missingComma => "expected comma"
  | missingClosing => "expected closing parenthesis"
  | missingSpace => "expected color space identifier"
  | unknownSpace => "unknown color space"

end Reason

/-- A text that is no color. -/
structure Invalid where
  input : String
  reason : Reason
  deriving DecidableEq, Repr

namespace Invalid

/-- What is wrong with the text. -/
def message (e : Invalid) : String :=
  s!"invalid color `{e.input}`: {e.reason.message}"

end Invalid

/-! ### Reading -/

/-- Reading from the front of a text. -/
abbrev Reader := StateT (List Char) (Except Reason)

/-- The text behind the comment that `cs` starts in, if the comment ends. -/
def afterComment? : List Char → Option (List Char)
  | '*' :: '/' :: cs => some cs
  | _ :: cs => afterComment? cs
  | [] => none

/-- Holds for the characters that may stand between components. -/
def isGap (c : Char) : Bool :=
  c = ' ' || c = '\t' || c = '\r' || c = '\n'

/-- The text behind comments and the characters for which `p` holds. A comment that does not end
stays. -/
def skipWith (p : Char → Bool) : Nat → List Char → List Char
  | 0, cs => cs
  | fuel + 1, cs =>
    match cs with
    | '/' :: '*' :: rest =>
      match afterComment? rest with
      | some rest => skipWith p fuel rest
      | none => cs
    | c :: rest => if p c then skipWith p fuel rest else cs
    | [] => []

namespace Reader

/-- Skips gaps and comments. -/
def gaps : Reader Unit :=
  modify fun cs ↦ skipWith isGap cs.length cs

/-- Skips comments, but no gaps. -/
def comments : Reader Unit :=
  modify fun cs ↦ skipWith (fun _ ↦ false) cs.length cs

/-- Reads a character if it comes next. -/
def next (c : Char) : Reader Bool :=
  modifyGet fun cs ↦
    match cs with
    | first :: rest => if first = c then (true, rest) else (false, cs)
    | [] => (false, [])

/-- Holds for the characters of words, `before` being the characters in front. -/
def continuesWord (before : List Char) (c : Char) : Bool :=
  c.isAlpha || c = '_' || c = '-' || (c.isDigit && !before.isEmpty && before != ['-'])

/-- The word at the front of a text, and what follows it. -/
def takeWord (before : List Char) : List Char → List Char × List Char
  | [] => (before.reverse, [])
  | c :: cs =>
    if continuesWord before c then takeWord (c :: before) cs else (before.reverse, c :: cs)

/-- Reads a word, which is not empty and has no two hyphens in front. -/
def word? : Reader (Option (List Char)) :=
  modifyGet fun cs ↦
    let (word, rest) := takeWord [] cs
    match word with
    | [] | ['-'] | '-' :: '-' :: _ => (none, cs)
    | word => (some word, rest)

/-- A component as it is written. -/
inductive Value where
  | number (x : Float)
  | percentage (x : Float)
  | measure (x : Float) (measureUnit : String)
  | word (name : String)

/-- The text of a word in lower case. -/
def lower (word : List Char) : String :=
  String.ofList (word.map Char.toLower)

/-- Reads a component. -/
def value? : Reader (Option Value) := do
  gaps
  match Decimal.takeWritten? (← get) with
  | some (written, rest) =>
    set rest
    let x := written.toDouble
    if ← next '%' then return some (.percentage x)
    match ← word? with
    | some measureUnit => return some (.measure x (lower measureUnit))
    | none => return some (.number x)
  | none => return (← word?).map fun word ↦ .word (lower word)

/-- Reads a component, as a multiple of `scale` or, for a percentage, of `percent`. -/
def component (scale percent : Float) : Reader (Option Float) := do
  match ← value? with
  | some (.number x) => return some (x * scale)
  | some (.percentage x) => return some (x * percent)
  | some (.word "none") => return none
  | _ => throw .unknownComponent

/-- The number of degrees in the unit of an angle. -/
def degrees? : String → Option Float
  | "deg" => some 1
  | "rad" => some (180 / 3.14159265358979323846)
  | "grad" => some 0.9
  | "turn" => some 360
  | _ => none

/-- Reads an angle. -/
def angle : Reader (Option Float) := do
  match ← value? with
  | some (.number x) => return some x
  | some (.word "none") => return none
  | some (.measure x measureUnit) =>
    match degrees? measureUnit with
    | some scale => return some (x * scale)
    | none => throw .unknownAngleUnit
  | _ => throw .unknownAngle

/-- A number cut down to a range. -/
def clamp (low high x : Float) : Float :=
  if x < low then low else if high < x then high else x

/-- A number that is at least zero. -/
def atLeastZero (x : Float) : Float :=
  if 0 < x then x else 0

/-- Reads a separator behind comments if it comes next. A comment that does not end starts with no
separator. -/
def separator (c : Char) : Reader Bool := do
  comments
  match ← get with
  | '/' :: '*' :: _ => return false
  | _ => next c

/-- Reads a separator behind gaps if it comes next. -/
def nextSeparator (c : Char) : Reader Bool := do
  gaps
  separator c

/-- Reads the comma between two components where commas are used. -/
def comma (used : Bool) : Reader Unit := do
  if used && !(← nextSeparator ',') then throw .missingComma

/-- Reads the bracket behind the name of a function. -/
def opening : Reader Unit := do
  if !(← next '(') then throw .missingArguments

/-- Reads the opacity, if there is one, and the bracket at the end. -/
def ending (commas : Bool) : Reader (Option Float) := do
  let opacity ←
    if ← nextSeparator (if commas then ',' else '/') then
      pure ((← component 1 0.01).map (clamp 0 1))
    else pure (some 1)
  if !(← nextSeparator ')') then throw .missingClosing
  return opacity

/-- A color of components in double precision. -/
def make (form : Form) (components : List (Option Float)) (opacity : Option Float) : Color where
  form := form
  components := components.map (·.map Float.toFloat32)
  opacity := opacity.map Float.toFloat32

/-- Reads the arguments of a color of red, green and blue. -/
def rgb : Reader Color := do
  opening
  let channel := do return (← component (1 / 255) 0.01).map (clamp 0 1)
  let red ← channel
  let commas ← nextSeparator ','
  let green ← channel
  comma commas
  let blue ← channel
  return make .rgb [red, green, blue] (← ending commas)

/-- Reads the arguments of a color of lightness and two axes. -/
def lab (name : String) (lightest scale : Float) : Reader Color := do
  opening
  let lightness := (← component 1 (0.01 * lightest)).map (clamp 0 lightest)
  let a ← component 1 scale
  let b ← component 1 scale
  return make (.function name) [lightness, a, b] (← ending false)

/-- Reads the arguments of a color of lightness, chroma and hue. -/
def lch (name : String) (lightest scale : Float) : Reader Color := do
  opening
  let lightness := (← component 1 (0.01 * lightest)).map (clamp 0 lightest)
  let chroma := (← component 1 scale).map atLeastZero
  let hue ← angle
  return make (.function name) [lightness, chroma, hue] (← ending false)

/-- Reads the arguments of a color of hue, saturation and lightness. A comma behind the hue has to
follow without a gap. -/
def hsl : Reader Color := do
  opening
  let hue ← angle
  let commas ← separator ','
  let saturation := (← component 1 1).map atLeastZero
  comma commas
  let lightness ← component 1 1
  return make (.function "hsl") [hue, saturation, lightness] (← ending commas)

/-- Reads the arguments of a color of hue, whiteness and blackness. -/
def hwb : Reader Color := do
  opening
  let hue ← angle
  let whiteness ← component 1 1
  let blackness ← component 1 1
  return make (.function "hwb") [hue, whiteness, blackness] (← ending false)

/-- The name under which a color space is shown. -/
def space? : String → Option String
  | "xyz" => some "xyz-d65"
  | name =>
    if ["srgb", "srgb-linear", "display-p3", "a98-rgb", "prophoto-rgb", "rec2020", "xyz-d50",
      "xyz-d65"].contains name then some name
    else none

/-- Reads the arguments of a color in a space that is named. -/
def inSpace : Reader Color := do
  opening
  gaps
  match ← word? with
  | none => throw .missingSpace
  | some word =>
    match space? (lower word) with
    | none => throw .unknownSpace
    | some name =>
      let x ← component 1 0.01
      let y ← component 1 0.01
      let z ← component 1 0.01
      return make (.space name) [x, y, z] (← ending false)

/-- The value of a hexadecimal digit. -/
def hexDigit? (c : Char) : Option Nat :=
  if c.isDigit then some (c.toNat - '0'.toNat)
  else if 'a' ≤ c && c ≤ 'f' then some (c.toNat - 'a'.toNat + 10)
  else if 'A' ≤ c && c ≤ 'F' then some (c.toNat - 'A'.toNat + 10)
  else none

/-- The hexadecimal digits at the front of a text, `count` of them at most, and what follows. -/
def takeHexDigits : Nat → List Char → List Nat × List Char
  | count + 1, c :: cs =>
    match hexDigit? c with
    | some digit =>
      let (digits, rest) := takeHexDigits count cs
      (digit :: digits, rest)
    | none => ([], c :: cs)
  | _, cs => ([], cs)

/-- The value of a channel between zero and one, of 255 steps. -/
def channelOf (high low : Nat) : Float32 :=
  (16 * high + low).toFloat32 * (1 / 255)

/-- The channels that hexadecimal digits stand for. -/
def channels? : List Nat → Option (List Float32)
  | [r, g, b] => some [channelOf r r, channelOf g g, channelOf b b]
  | [r, g, b, a] => some [channelOf r r, channelOf g g, channelOf b b, channelOf a a]
  | [r, r', g, g', b, b'] => some [channelOf r r', channelOf g g', channelOf b b']
  | [r, r', g, g', b, b', a, a'] =>
    some [channelOf r r', channelOf g g', channelOf b b', channelOf a a']
  | _ => none

/-- Reads the digits of a color behind a number sign. -/
def hex : Reader Color := do
  let digits ← modifyGet (takeHexDigits 8)
  match channels? digits with
  | none => throw .wrongHexDigits
  | some channels =>
    return { form := .rgb
             components := (channels.take 3).map some
             opacity := some ((channels[3]?).getD 1) }

/-- The color of a name. -/
def named? (name : String) : Option Color :=
  if names.contains name then
    some { form := .named name, components := []
           opacity := some (if name = transparent then 0 else 1) }
  else none

/-- The length of the longest word that is compared without regard to case. -/
def maxFolded : Nat := 32

/-- Reads what follows a word at the front of a color. -/
def afterWord (word : List Char) : Reader Color :=
  match if word.length ≤ maxFolded then lower word else String.ofList word with
  | "rgb" | "rgba" => rgb
  | "lab" => lab "lab" 100 1.25
  | "lch" => lch "lch" 100 1.25
  | "oklab" => lab "oklab" 1 0.004
  | "oklch" => lch "oklch" 1 0.004
  | "hsl" | "hsla" => hsl
  | "hwb" => hwb
  | "color" => inSpace
  | name =>
    match named? name with
    | some color => pure color
    | none => throw .unknownName

/-- Reads a color. -/
def color : Reader Color := do
  if ← next '#' then hex
  else
    match ← word? with
    | some word => afterWord word
    | none => throw .unknownForm

end Reader

/-- The color that a text stands for, blanks around it apart. -/
def read (text : String) : Except Invalid Color :=
  match Reader.color.run (Text.trimBlank text.toList) with
  | .ok (color, []) => .ok color
  | .ok (_, _ :: _) => .error ⟨text, .unfinishedEnd⟩
  | .error reason => .error ⟨text, reason⟩

end Color

end BlockDiagram
