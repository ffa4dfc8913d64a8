import BlockDiagram.CommandLine

/-!
# Folders

Files held in memory, for a command line without a disk. A path is followed name by name from a working
folder, and every name on the way has to be one of a folder. Above the working folder there are folders
too, but nothing is known of what else they hold.
-/

namespace BlockDiagram.CommandLine

/-- The files of a working folder by the names on the way to them. -/
structure Folder where
  files : List (List String × String)

namespace Folder

/-- What a path leads to. -/
inductive Place where
  /-- A folder that is not inside the working folder. -/
  | outside
  /-- The file or folder behind the given names; the working folder itself is behind none. -/
  | inside (names : List String)
  deriving DecidableEq, Repr

/-- The length in bytes that no name exceeds. -/
def maxNameBytes : Nat := 255

/-- The length in bytes that no path reaches. -/
def pathBytesBound : Nat := 4096

/-- The names in a path. A path that starts with a stroke has the empty name in front, and one that
ends with a stroke has it at the end. -/
def namesIn (path : String) : List String :=
  (Text.pieces '/' path.toList).map String.ofList

/-- A folder with the given files. -/
def ofFiles (files : List (String × String)) : Folder where
  files := files.map fun (path, content) ↦
    ((namesIn path).filter fun name ↦ name != "" && name != ".", content)

/-- Holds for folders. -/
def isFolder (f : Folder) : Place → Bool
  | .outside => true
  | .inside names => names.isEmpty || f.files.any fun (file, _) ↦ names.isPrefixOf file && names != file

/-- The file behind some names. -/
def content? (f : Folder) (names : List String) : Option String :=
  f.files.lookup names

/-- The place of a name in a folder. -/
def child (f : Folder) (place : Place) (name : String) : Except FileError Place :=
  if maxNameBytes < name.utf8ByteSize then throw .nameTooLong
  else
    match place with
    | .outside => throw .notFound
    | .inside names =>
      let place := Place.inside (names ++ [name])
      if f.isFolder place || (f.content? (names ++ [name])).isSome then pure place
      else throw .notFound

/-- Where a name leads to from a place. Neither no name at all nor a single point leads away. -/
def follow (f : Folder) (place : Place) (name : String) : Except FileError Place :=
  if !f.isFolder place then throw .notADirectory
  else
    match name with
    | "" | "." => pure place
    | ".." =>
      match place with
      | .outside | .inside [] => pure .outside
      | .inside names => pure (.inside names.dropLast)
    | name => f.child place name

/-- Where names lead to. An empty name in front leads out of the working folder. -/
def find (f : Folder) : List String → Except FileError Place
  | "" :: names => names.foldlM f.follow .outside
  | names => names.foldlM f.follow (.inside [])

/-- Why a text is no path. -/
def pathError? (path : String) : Option FileError :=
  if path.contains '\x00' then some .zeroInPath
  else if path.isEmpty then some .notFound
  else if pathBytesBound ≤ path.utf8ByteSize then some .nameTooLong
  else none

/-- The content of the file at a path. -/
def read (f : Folder) : Files := fun path ↦
  match pathError? path with
  | some e => throw e
  | none => do
    match ← f.find (namesIn path) with
    | .outside => throw .isADirectory
    | .inside names =>
      match f.content? names with
      | some content => pure content
      | none => throw .isADirectory

/-- The names of a path without the empty ones at its end. -/
def withoutEnd (names : List String) : List String :=
  (names.reverse.dropWhile String.isEmpty).reverse

/-- Why no file can be written at a path. A path whose last name is empty, or leads back to a folder,
is one of a folder. -/
def unwritable? (f : Folder) (path : String) : Option FileError :=
  match pathError? path with
  | some e => some e
  | none =>
    let names := namesIn path
    let shortened := withoutEnd names
    match shortened.getLast? with
    | none => some .isADirectory
    | some last =>
      match f.find shortened.dropLast with
      | .error e => some e
      | .ok parent =>
        if !f.isFolder parent then some .notADirectory
        else if last = "." || last = ".." || shortened.length < names.length then some .isADirectory
        else
          match f.child parent last with
          | .error .notFound => none
          | .error e => some e
          | .ok place => if f.isFolder place then some .isADirectory else none

end Folder

/-- The text of the file that a command line writes, or why it writes none. -/
def written (a : Arguments) (userFolder : Option String) (f : Folder) : Except Error String := do
  let text ← output a userFolder f.read
  match f.unwritable? a.outputPath with
  | some e => throw (.file e)
  | none => return text

end BlockDiagram.CommandLine
