import BlockDiagram.Setting

/-!
# Tables under construction

The tables of a TOML text while its lines are read. A table is defined once, by its header or by the
dotted keys of one other table, so every table remembers what brought it about; a table that only lies
on the way to another one can still get a header or dotted keys of its own. Headers with two brackets
collect tables in a list, and what is put into that list goes into its last table.
-/

namespace BlockDiagram.Toml

/-- What brought a table about. -/
inductive Origin where
  /-- The header of a table inside it. -/
  | implied
  /-- A header of its own. -/
  | header
  /-- A dotted key. -/
  | dotted
  deriving DecidableEq, Repr

/-- What a key stands for. -/
inductive Item where
  | value (setting : Setting)
  | table (origin : Origin) (items : List (String × Item))
  /-- The tables of headers with two brackets; the last one is still open. -/
  | tables (earlier : List Setting) (last : List (String × Item))

/-- The keys of a table and what they stand for, in order. -/
abbrev Items := List (String × Item)

mutual

/-- The setting that an item is. -/
def Item.setting : Item → Setting
  | .value setting => setting
  | .table _ items => .table (Items.settings items)
  | .tables earlier last => .list (earlier ++ [.table (Items.settings last)])

/-- The settings that the keys of a table stand for. -/
def Items.settings : Items → Setting.Entries
  | [] => []
  | (key, item) :: items => (key, item.setting) :: Items.settings items

end

/-- A key that is defined already. -/
structure Redefined where
  key : String
  deriving DecidableEq, Repr

namespace Items

/-- Lets a key stand for an item, in the place it has or else behind all others. -/
def put (items : Items) (key : String) (item : Item) : Items :=
  match items with
  | [] => [(key, item)]
  | (other, old) :: items =>
    if other = key then (key, item) :: items else (other, old) :: put items key item

/-- What a key stands for once one key is put. -/
theorem lookup_put (items : Items) (key other : String) (item : Item) :
    (items.put key item).lookup other = if other = key then some item else items.lookup other := by
  induction items with
  | nil =>
    by_cases h : other = key
    · simp [put, h]
    · simp [put, List.lookup_cons, beq_false_of_ne h, h]
  | cons entry items ih =>
    obtain ⟨first, old⟩ := entry
    by_cases hf : first = key
    · by_cases ho : other = key
      · simp [put, hf, ho]
      · simp [put, List.lookup_cons, hf, beq_false_of_ne ho, ho]
    · by_cases ho : other = first
      · simp [put, ho, hf]
      · simp [put, List.lookup_cons, hf, beq_false_of_ne ho, ih]

/-- Defines a key, which may be dotted. No table on its way may have a header of its own. -/
def define (setting : Setting) (items : Items) : String → List String → Except Redefined Items
  | key, [] =>
    match items.lookup key with
    | some _ => throw ⟨key⟩
    | none => pure (items.put key (.value setting))
  | key, next :: path =>
    match items.lookup key with
    | none => return items.put key (.table .dotted (← define setting [] next path))
    | some (.table .header _) | some (.value _) | some (.tables ..) => throw ⟨key⟩
    | some (.table origin inner) =>
      return items.put key (.table origin (← define setting inner next path))

/-- What a key stands for once its table gets a header. Only an implied table can exist before. -/
def opened? : Option Item → Option Item
  | none => some (.table .header [])
  | some (.table .implied inner) => some (.table .header inner)
  | some _ => none

/-- What a key stands for once a table is added to its list. -/
def extended? : Option Item → Option Item
  | none => some (.tables [] [])
  | some (.tables earlier last) => some (.tables (earlier ++ [.table (settings last)]) [])
  | some _ => none

/-- Changes what the last key of a header stands for, and implies the tables on its way. -/
def openAt (change : Option Item → Option Item) (items : Items) :
    String → List String → Except Redefined Items
  | key, [] =>
    match change (items.lookup key) with
    | some item => pure (items.put key item)
    | none => throw ⟨key⟩
  | key, next :: path =>
    match items.lookup key with
    | none => return items.put key (.table .implied (← openAt change [] next path))
    | some (.table origin inner) =>
      return items.put key (.table origin (← openAt change inner next path))
    | some (.tables earlier last) =>
      return items.put key (.tables earlier (← openAt change last next path))
    | some (.value _) => throw ⟨key⟩

/-- Changes the table that a header leads to. -/
def within (change : Items → Except Redefined Items) (items : Items) :
    List String → Except Redefined Items
  | [] => change items
  | key :: path =>
    match items.lookup key with
    | some (.table origin inner) =>
      return items.put key (.table origin (← within change inner path))
    | some (.tables earlier last) =>
      return items.put key (.tables earlier (← within change last path))
    | _ => throw ⟨key⟩

end Items

end BlockDiagram.Toml
