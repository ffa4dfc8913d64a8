/-!
# Settings

Values of a configuration as they are written, before anything is known of what they mean, and how
values of one kind are read from them. What does not fit is reported with the names that lead to it.
-/

namespace BlockDiagram

/-- A value in a configuration. -/
inductive Setting where
  /-- No value at all. -/
  | absent
  | flag (b : Bool)
  | integer (n : Int)
  | decimal (x : Float)
  | text (s : String)
  /-- A date, a time, or both, as it is written. -/
  | date (s : String)
  | list (items : List Setting)
  | table (entries : List (String × Setting))
  deriving Inhabited

namespace Setting

/-- The formats that settings are written in. -/
inductive Format where
  | json
  | toml
  deriving DecidableEq, Repr

/-- The entries of a table. -/
abbrev Entries := List (String × Setting)

/-- A setting whose value is of the wrong kind. -/
structure Misfit where
  /-- The names that lead to the setting, from the outside in. -/
  path : List String
  /-- The kind of value that was wanted. -/
  wanted : String
  deriving DecidableEq, Repr

namespace Misfit

/-- What is wrong. -/
def message (m : Misfit) : String :=
  let place := if m.path.isEmpty then "the configuration" else ".".intercalate m.path
  s!"{place} is not {m.wanted}"

/-- The misfit as it is seen from the table around it. -/
def inside (name : String) (m : Misfit) : Misfit :=
  { m with path := name :: m.path }

end Misfit

/-- The misfit of a setting that should have been something else. -/
def misfit (wanted : String) : Misfit :=
  ⟨[], wanted⟩

/-- The entries of a table. -/
def asTable : Setting → Except Misfit Entries
  | table entries => pure entries
  | _ => throw (misfit "a table")

/-- The entries of a section, which have the given names. A list holds them in this order, and is
short in JSON but may go on in TOML. A date has no entries with a meaning. -/
def asSection (format : Format) (names : List String) : Setting → Except Misfit Entries
  | table entries => pure entries
  | list items =>
    if format = .json && names.length < items.length then throw (misfit "a table")
    else pure (names.zip items)
  | date _ => pure []
  | _ => throw (misfit "a table")

/-- Holds for the settings without content that a chosen name may stand in front of. -/
def isContentless : Format → Setting → Bool
  | .json, absent | .toml, list [] | .toml, table [] => true
  | _, _ => false

/-- A name that is chosen, on its own or in front of nothing. -/
def asName (format : Format) : Setting → Except Misfit String
  | text s => pure s
  | table [(name, content)] =>
    if isContentless format content then pure name else throw (misfit "a name")
  | _ => throw (misfit "a name")

/-- A text. -/
def asText : Setting → Except Misfit String
  | text s => pure s
  | _ => throw (misfit "a text")

/-- A text, or nothing. -/
def asOptionalText : Setting → Except Misfit (Option String)
  | text s => pure (some s)
  | absent => pure none
  | _ => throw (misfit "a text")

/-- Holds for the whole numbers that fit into 64 bits, with or without a sign. -/
def isWord (n : Int) : Bool :=
  -0x8000000000000000 ≤ n && n < 0x10000000000000000

/-- The single-precision number nearest to a number. -/
def asSingle : Setting → Except Misfit Float32
  | integer n => if isWord n then pure (Float32.ofInt n) else throw (misfit "a number of 64 bits")
  | decimal x => pure x.toFloat32
  | _ => throw (misfit "a number")

/-- A whole number from zero on and below a bound. -/
def asNatBelow (bound : Nat) : Setting → Except Misfit Nat
  | integer n =>
    if 0 ≤ n && n < bound then pure n.toNat else throw (misfit s!"a whole number below {bound}")
  | _ => throw (misfit "a whole number")

/-- The entry of a name as `read` takes it; without such an entry, what is taken instead. -/
def entry {α : Type} (entries : Entries) (name : String) (read : Setting → Except Misfit α)
    (missing : α) : Except Misfit α :=
  match entries.lookup name with
  | none => pure missing
  | some setting => (read setting).mapError (.inside name)

end Setting

end BlockDiagram
