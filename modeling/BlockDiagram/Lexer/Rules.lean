import BlockDiagram.Regex
import BlockDiagram.Text.Blank
import BlockDiagram.Token

/-!
# Lexical rules

What the pieces of a source look like. Quoted text, node shapes, block arrows, link labels and the
bodies of directives each have rules of their own, so every rule belongs to a mode and may change
the stack of modes.
-/

namespace BlockDiagram.Lexer

open Token (Kind)

/-- The part of the language that is being read. -/
inductive Mode where
  | initial
  | string
  | markdown
  | node
  | blockArrow
  | arrowDirections
  | linkLabel
  | classDef
  | classDefBody
  | classTargets
  | classBody
  | styleTargets
  | styleBody
  | title
  | description
  | descriptionBlock
  deriving DecidableEq, Repr, Inhabited

/-- What a rule does to the stack of modes. -/
inductive Effect where
  | stay
  /-- Enters a mode inside the current one. -/
  | enter (mode : Mode)
  | leave
  /-- Leaves the current mode for another one in its place. -/
  | become (mode : Mode)
  | leaveTwice
  deriving DecidableEq, Repr

/-- One form of source text. A rule without a kind cuts a piece that becomes no token. -/
structure Rule where
  /-- The texts that the rule is for. -/
  pattern : Regex
  /-- Reads one of them off the front of a text, and returns what is left. -/
  read : List Char → Option (List Char)
  kind : Option Kind
  effect : Effect

namespace Rule

/-- The rule for a pattern that is read as it is written. -/
def of (pattern : Regex) (kind : Option Kind) (effect : Effect) : Rule :=
  { pattern, read := pattern.scan, kind, effect }

/-- The number of characters that the rule takes from the front of a text. -/
def length (rule : Rule) (text : List Char) : Nat :=
  (rule.read text).elim 0 fun rest ↦ text.length - rest.length

end Rule

namespace Pattern

open Regex

/-- A blank character. -/
def blank : Regex := char Text.isBlank

/-- Blank characters, if any. -/
def blanks : Regex := many blank

/-- At least one blank character. -/
def someBlanks : Regex := atLeastOnce blank

/-- At least one decimal digit. -/
def digits : Regex := atLeastOnce (char Char.isDigit)

/-- At least one word character. -/
def word : Regex := atLeastOnce (char isWordChar)

/-- Any characters but the given one. -/
def upTo (c : Char) : Regex := many (char (· != c))

/-- The marker at the start of a link, if any. -/
def linkTail : Regex := optional (oneOf ['x', 'o', '<'])

/-- The characters that close the line of a link. -/
def linkHeads : List Char := ['x', 'o', '>']

/-- A link drawn with `line`: two of it, any more, and one more or a marker. -/
def lineLink (line : Char) : Regex :=
  inOrder [blanks, linkTail, just line, atLeastOnce (just line), oneOf (line :: linkHeads), blanks]

/-- Reads all of a line that there is and a marker behind it. Without a marker the line is longer by
one. -/
def readLine (line : Char) (text : List Char) : Option (List Char) :=
  let run := text.takeWhile (· == line)
  let rest := text.dropWhile (· == line)
  if run.length < 2 then none
  else if rest.head?.any linkHeads.contains then some rest.tail
  else if 3 ≤ run.length then some rest
  else none

/-- Reads a link drawn with `line`. -/
def readLineLink (line : Char) (text : List Char) : Option (List Char) := do
  let text ← blanks.scan text
  let text ← linkTail.scan text
  let text ← readLine line text
  blanks.scan text

/-- A dotted link. -/
def dottedLink : Regex :=
  inOrder [blanks, linkTail, optional (just '-'), atLeastOnce (just '.'), just '-',
    optional (oneOf linkHeads), blanks]

/-- A link that is not drawn. -/
def invisibleLink : Regex :=
  inOrder [blanks, just '~', just '~', atLeastOnce (just '~'), blanks]

/-- The start of a link that carries a label. -/
def labelledLink (start : String) : Regex :=
  inOrder [blanks, linkTail, literal start, blanks]

/-- A word that ends there and the blanks behind it. -/
def keyword (word : String) : Regex :=
  inOrder [literal word, someBlanks]

/-- A list of words with commas between them. -/
def words : Regex :=
  seq word (many (inOrder [just ',', blanks, word]))

/-- The characters that end a node id, blank ones apart. -/
def nodeIdEnds : List Char :=
  ['(', '[', '-', ')', '\x7b', '\x7d', '<', '>', ':']

/-- A node id. -/
def nodeId : Regex :=
  atLeastOnce (char fun c ↦ !Text.isBlank c && !nodeIdEnds.contains c)

/-- One arrow direction of a list. -/
def direction : Regex :=
  inOrder [optional (just ','), blanks,
    anyOf (["right", "left", "up", "down", "x", "y"].map literal), blanks]

end Pattern

open Regex Pattern

/-- The rules for a quoted text inside another mode. -/
def quoteRules (plainKind markdownKind : Option Kind) : List Rule := [
  .of (literal "\"`") markdownKind (.enter .markdown),
  .of (literal "\"") plainKind (.enter .string)]

/-- The brackets that open a shape. -/
def shapeOpenings : List String := [
  "-)", "(-", "))", ")", "(((", "((", "\x7b\x7b", "\x7b", ">", "([", "(", "[[", "[|", "[(", ")))",
  "[\\", "[/", "["]

/-- The brackets that close a shape. -/
def shapeClosings : List String := [
  "(((", ")))", "))", "\x7d\x7d", "\x7d", "(-", "-)", "((", "]]", "(", "])", "\\]", "/]", ")]",
  ")", "]>", "]"]

/-- The links that are drawn, each with what becomes of the mode behind it. -/
def drawnLinkRules (effect : Effect) : List Rule :=
  ['-', '='].map (fun line ↦ ⟨lineLink line, readLineLink line, some .link, effect⟩) ++
  [.of dottedLink (some .link) effect]

/-- The rules outside of all other modes. -/
def initialRules : List Rule :=
  [.of (inOrder [literal "block-beta", wordEnd]) (some .diagram) .stay,
    .of (keyword "block") (some .block) .stay,
    .of (literal "block:") (some .namedBlock) .stay,
    .of someBlanks none .stay,
    .of (inOrder [literal "%%", upTo '\n']) none .stay,
    .of (inOrder [literal "columns", someBlanks, literal "auto", wordEnd]) (some .columns) .stay,
    .of (inOrder [literal "columns", someBlanks, digits]) (some .columns) .stay] ++
  quoteRules none none ++
  [.of (inOrder [literal "space:", digits]) (some .space) .stay,
    .of (inOrder [literal "space", wordEnd]) (some .space) .stay,
    .of (keyword "classDef") (some .classDef) (.enter .classDef),
    .of (keyword "class") (some .applyClass) (.enter .classTargets),
    .of (keyword "style") (some .applyStyle) (.enter .styleTargets),
    .of (inOrder [literal "accTitle", blanks, just ':', blanks]) (some .title) (.enter .title),
    .of (inOrder [literal "accDescr", blanks, just ':', blanks]) (some .description)
      (.enter .description),
    .of (inOrder [literal "accDescr", blanks, just '\x7b', blanks]) none
      (.enter .descriptionBlock),
    .of (inOrder [literal "end", wordEnd, blanks]) (some .blockEnd) .stay] ++
  shapeOpenings.map (fun bracket ↦ .of (literal bracket) (some .shapeOpen) (.enter .node)) ++
  [.of (literal "<[") (some .arrowOpen) (.enter .blockArrow),
    .of nodeId (some .nodeId) .stay] ++
  drawnLinkRules .stay ++
  [.of invisibleLink (some .link) .stay] ++
  ["--", "==", "-."].map (fun start ↦
    .of (labelledLink start) (some .labelledLink) (.enter .linkLabel)) ++
  [.of (inOrder [just ':', digits]) (some .width) .stay]

/-- The rules for a text that ends its mode at the end of the line. -/
def restOfLineRules (kind : Kind) : List Rule :=
  [.of (upTo '\n') (some kind) .leave]

namespace Mode

/-- The rules of a mode. Of two that match equally far the first one applies. -/
def rules : Mode → List Rule
  | initial => initialRules
  | string => [
    .of (literal "\"") none .leave,
    .of (upTo '\x22') (some .text) .stay]
  | markdown => [
    .of (atLeastOnce (char fun c ↦ c != '\x60' && c != '\x22')) (some .markdown) .stay,
    .of (literal "`\"") none .leave]
  | node =>
    shapeClosings.map (fun bracket ↦ .of (literal bracket) (some .shapeClose) .leave) ++
      quoteRules none none
  | blockArrow =>
    quoteRules none none ++
      [.of (inOrder [literal "]>", blanks, just '(']) none (.enter .arrowDirections)]
  | arrowDirections => [
    .of Pattern.direction (some .direction) .stay,
    .of (inOrder [just ')', blanks]) (some .arrowClose) .leaveTwice]
  | linkLabel =>
    quoteRules (some .linkLabel) (some .linkLabel) ++ drawnLinkRules .leave
  | classDef => [
    .of (keyword "DEFAULT") (some .defaultClass) (.become .classDefBody),
    .of (inOrder [word, someBlanks]) (some .className) (.become .classDefBody)]
  | classDefBody => restOfLineRules .classStyles
  | classTargets => [.of words (some .classTargets) (.become .classBody)]
  | classBody => restOfLineRules .appliedClass
  | styleTargets => [.of words (some .styleTargets) (.become .styleBody)]
  | styleBody => restOfLineRules .styles
  | title => restOfLineRules .titleText
  | description => restOfLineRules .descriptionText
  | descriptionBlock => [
    .of (literal "\x7d") none .leave,
    .of (upTo '\x7d') (some .descriptionBlock) .stay]

end Mode

end BlockDiagram.Lexer
