/-!
# Elements

Trees of elements with attributes, and their text. Every element starts on a line of its own. Text
stays on the line of the element around it, unless that element is a drawing or a label.
-/

namespace BlockDiagram.Svg

/-- An element or a text. -/
inductive Node where
  | text (content : String)
  | element (name : String) (attributes : List (String × String)) (children : List Node)
  deriving Inhabited

/-- A text in which the given characters are written as entities. -/
def withEntities (entities : List (Char × String)) (s : String) : String :=
  s.foldl
    (fun done c ↦
      match entities.lookup c with
      | some entity => done ++ entity
      | none => done.push c)
    ""

/-- The entities for the characters that have a meaning between elements. -/
def textEntities : List (Char × String) := [('&', "&amp;"), ('<', "&lt;"), ('>', "&gt;")]

/-- The entities for the characters that have a meaning inside of attributes. -/
def attributeEntities : List (Char × String) :=
  textEntities ++ [('\x22', "&quot;"), ('\x27', "&apos;")]

namespace Node

/-- Holds for the names of elements that give every text in them a line of its own. -/
def breaksText (name : String) : Bool :=
  name = "svg" || name = "text"

/-- Holds for what starts on a line of its own inside an element. -/
def isOnOwnLine (parent : String) : Node → Bool
  | text _ => breaksText parent
  | element .. => true

/-- The text of an attribute. -/
def writeAttribute (entry : String × String) : String :=
  " " ++ entry.1 ++ "=\"" ++ withEntities attributeEntities entry.2 ++ "\""

/-- The attributes in the order of their names. -/
def sorted (attributes : List (String × String)) : List (String × String) :=
  attributes.mergeSort fun a b ↦ !decide (b.1 < a.1)

mutual

/-- The text of a node. -/
def write : Node → String
  | text content => withEntities textEntities content
  | element name attributes children =>
    let start := "<" ++ name ++ String.join ((sorted attributes).map writeAttribute)
    match children with
    | [] => start ++ "/>"
    | child :: rest =>
      let last := (child :: rest).getLast (by simp)
      start ++ ">" ++ writeAll name (child :: rest) ++
        (if last.isOnOwnLine name then "\n" else "") ++ "</" ++ name ++ ">"

/-- The texts of the nodes inside an element. -/
def writeAll (parent : String) : List Node → String
  | [] => ""
  | node :: nodes =>
    (if node.isOnOwnLine parent then "\n" else "") ++ node.write ++ writeAll parent nodes

end

end Node

end BlockDiagram.Svg
