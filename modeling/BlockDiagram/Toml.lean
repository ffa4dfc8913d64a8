import BlockDiagram.Toml.Quoted
import BlockDiagram.Toml.Table

/-!
# TOML

Reading settings from a text in the TOML format: lines with headers of tables and dotted keys, and as
values texts, numbers, flags, dates, lists and tables between braces. Lists and tables between braces
may go on over lines.
-/

namespace BlockDiagram.Toml

/-- Why a text has no settings. -/
inductive Error where
  /-- Nothing that the format knows starts at the given rest of a line. -/
  | unexpected (rest : String)
  | redefined (key : String)
  deriving DecidableEq, Repr

namespace Error

/-- What is wrong. -/
def message : Error → String
  | unexpected rest => s!"unexpected text in front of `{rest}`"
  | redefined key => s!"`{key}` is defined twice"

end Error

/-- Reading from the front of a text. -/
abbrev Reader := StateT (List Char) (Except Error)

namespace Reader

/-- Stops reading here. -/
def refuse {α : Type} : Reader α := do
  throw (.unexpected (String.ofList ((← get).takeWhile (· != '\n'))))

/-- The value of a result that may fail. -/
def require {α : Type} : Option α → Reader α
  | some a => pure a
  | none => refuse

/-- A change of tables that may define a key twice. -/
def defining {α : Type} (result : Except Redefined α) : Reader α :=
  match result with
  | .ok a => pure a
  | .error e => throw (.redefined e.key)

/-- Reads a character if it comes next. -/
def next (c : Char) : Reader Bool :=
  modifyGet fun cs ↦
    match cs with
    | first :: rest => if first = c then (true, rest) else (false, cs)
    | [] => (false, [])

/-- Reads a character that has to come next. -/
def expect (c : Char) : Reader Unit := do
  if !(← next c) then refuse

/-- Reads the characters at the front for which `p` holds. -/
def span (p : Char → Bool) : Reader (List Char) :=
  modifyGet fun cs ↦ (cs.takeWhile p, cs.dropWhile p)

/-- Skips blanks and tabs. -/
def blanks : Reader Unit :=
  modify (·.dropWhile isBlank)

/-- Skips a comment, if there is one. -/
def comment : Reader Unit := do
  if ← next '#' then discard (span isPrintable)

/-- Reads the end of a line; the end of the text is one. -/
def lineEnd : Reader Unit := do
  blanks
  comment
  if !(← get).isEmpty then set (← require (afterLineEnd? (← get)))

/-- Skips blanks, comments and ends of lines. -/
def gaps : Nat → Reader Unit
  | 0 => pure ()
  | fuel + 1 => do
    blanks
    comment
    match afterLineEnd? (← get) with
    | some rest =>
      set rest
      gaps fuel
    | none => pure ()

/-- Reads a text, if one comes next that is written in one of the given ways. -/
def text? (ways : List Quotation) : Reader (Option String) := do
  match quotation? ways (← get) with
  | none => return none
  | some q =>
    let (text, rest) ← require (q.take? (← get))
    set rest
    return some (String.ofList text)

/-- Holds for the characters of keys without quotation marks. -/
def isKeyChar (c : Char) : Bool :=
  c.isAlphanum || c = '_' || c = '-'

/-- Reads one key. -/
def key : Reader String := do
  match ← text? Quotation.onOneLine with
  | some name => return name
  | none =>
    let name ← span isKeyChar
    if name.isEmpty then refuse
    return String.ofList name

/-- Reads the keys behind the points of a dotted key. -/
def furtherKeys : Nat → Reader (List String)
  | 0 => pure []
  | fuel + 1 => do
    blanks
    if ← next '.' then
      blanks
      let name ← key
      return name :: (← furtherKeys fuel)
    else return []

/-- The number of lists and tables that can lie in one another, and of keys in front of the last
point of a dotted key. -/
def maxDepth : Nat := 80

/-- Reads a key, which may be dotted, and the blanks around it. -/
def dottedKey : Reader (String × List String) := do
  blanks
  let name ← key
  let path ← furtherKeys (← get).length
  if maxDepth ≤ path.length then refuse
  return (name, path)

mutual

/-- Reads a value in which lists and tables lie in one another up to a depth. -/
def value : Nat → Nat → Reader Setting
  | 0, _ => refuse
  | fuel + 1, depth => do
    match ← text? Quotation.all with
    | some text => return .text text
    | none =>
      if ← next '[' then
        if depth = 0 then refuse
        return .list (← listItems fuel (depth - 1) [])
      else if ← next '\x7b' then
        if depth = 0 then refuse
        return .table (Items.settings (← tableItems fuel (depth - 1) []))
      else
        let (word, rest) := takeWord (← get)
        let setting ← require (word? word)
        set rest
        return setting

/-- Reads the items of a list up to its end. -/
def listItems : Nat → Nat → List Setting → Reader (List Setting)
  | 0, _, _ => refuse
  | fuel + 1, depth, done => do
    gaps (← get).length
    if ← next ']' then return done.reverse
    else
      let item ← value fuel depth
      gaps (← get).length
      if ← next ',' then listItems fuel depth (item :: done)
      else
        expect ']'
        return (item :: done).reverse

/-- Reads the entries of a table between braces up to its end. -/
def tableItems : Nat → Nat → Items → Reader Items
  | 0, _, _ => refuse
  | fuel + 1, depth, items => do
    gaps (← get).length
    if ← next '\x7d' then return items
    else
      let (name, path) ← dottedKey
      expect '='
      blanks
      let setting ← value fuel depth
      let items ← defining (items.define setting name path)
      gaps (← get).length
      if ← next ',' then tableItems fuel depth items
      else
        expect '\x7d'
        return items

end

/-- Reads a header behind its first bracket, and adds the table it stands for. -/
def header (items : Items) : Reader (List String × Items) := do
  let isListed ← next '['
  let (name, path) ← dottedKey
  expect ']'
  if isListed then expect ']'
  lineEnd
  let change := if isListed then Items.extended? else Items.opened?
  return (name :: path, ← defining (items.openAt change name path))

/-- Reads a key with its value into the table that a header leads to. -/
def keyValue (path : List String) (items : Items) : Reader Items := do
  let (name, inner) ← dottedKey
  expect '='
  blanks
  let setting ← value (← get).length maxDepth
  lineEnd
  defining (items.within (fun table ↦ table.define setting name inner) path)

/-- Reads the lines of a text, where `path` is the header of the table that they belong to. -/
def lines : Nat → List String → Items → Reader Items
  | 0, _, _ => refuse
  | fuel + 1, path, items => do
    gaps (← get).length
    match ← get with
    | [] => return items
    | '[' :: rest =>
      set rest
      let (path, items) ← header items
      lines fuel path items
    | _ => lines fuel path (← keyValue path items)

end Reader

/-- The mark that tells the order of bytes, which a text can start with. -/
def byteOrderMark : Char := '\ufeff'

/-- The settings of a text. -/
def read (text : String) : Except Error Setting :=
  let cs := text.toList
  let cs := if cs.head? = some byteOrderMark then cs.tail else cs
  match (Reader.lines (cs.length + 1) [] []).run cs with
  | .ok (items, _) => .ok (.table (Items.settings items))
  | .error e => .error e

end BlockDiagram.Toml
