import Std.Data.ExtTreeMap

/-!
# Maps in order of insertion

Maps from texts to values that remember in which order their keys came in. Replacing a value leaves
its key where it is. Two maps with the same keys in the same order and the same values are equal
(`OrderedMap.ext_get?`).
-/

namespace BlockDiagram

/-- A map whose keys are listed in the order in which they were inserted. -/
structure OrderedMap (α : Type) where
  keys : Array String
  table : Std.ExtTreeMap String α
  mem_table_iff : ∀ key, key ∈ table ↔ key ∈ keys
  nodup : keys.toList.Nodup

namespace OrderedMap

variable {α : Type}

/-- The map without keys. -/
def empty : OrderedMap α where
  keys := #[]
  table := ∅
  mem_table_iff := by simp
  nodup := by simp

instance : Inhabited (OrderedMap α) := ⟨empty⟩

/-- The value of a key. -/
def get? (m : OrderedMap α) (key : String) : Option α :=
  m.table[key]?

/-- Holds for the keys of the map. -/
def contains (m : OrderedMap α) (key : String) : Bool :=
  m.table.contains key

/-- The number of keys. -/
def size (m : OrderedMap α) : Nat :=
  m.keys.size

/-- Gives a key its value; a new key comes last. -/
def insert (m : OrderedMap α) (key : String) (value : α) : OrderedMap α where
  keys := if m.contains key then m.keys else m.keys.push key
  table := m.table.insert key value
  mem_table_iff other := by
    have hmem := m.mem_table_iff
    rw [Std.ExtTreeMap.mem_insert, Std.LawfulEqCmp.compare_eq_iff_eq]
    split
    · rename_i h
      rw [hmem]
      constructor
      · rintro (rfl | h')
        · exact (hmem _).1 (Std.ExtTreeMap.contains_iff_mem.1 h)
        · exact h'
      · exact Or.inr
    · rw [hmem, Array.mem_push, or_comm, eq_comm]
  nodup := by
    split
    · exact m.nodup
    · rename_i h
      rw [Array.toList_push, List.nodup_append]
      refine ⟨m.nodup, by simp, fun a ha b hb hab ↦ h ?_⟩
      obtain rfl := List.mem_singleton.1 hb
      subst hab
      exact Std.ExtTreeMap.contains_iff_mem.2 ((m.mem_table_iff a).2 (Array.mem_toList_iff.1 ha))

/-- Changes the value of a key; without such a key nothing changes. -/
def modify (m : OrderedMap α) (key : String) (f : α → α) : OrderedMap α :=
  match m.get? key with
  | some value => m.insert key (f value)
  | none => m

/-- The values with their keys, in order of insertion. -/
def toList (m : OrderedMap α) : List (String × α) :=
  m.keys.toList.filterMap fun key ↦ (m.get? key).map fun value ↦ (key, value)

/-- The values, in order of insertion. -/
def values (m : OrderedMap α) : List α :=
  m.keys.toList.filterMap m.get?

/-- Nothing is found in an empty map. -/
@[simp] theorem get?_empty (key : String) : (empty : OrderedMap α).get? key = none := by
  simp [get?, empty]

/-- What is inserted is found under its key, and what is under other keys is left as it was. -/
theorem get?_insert (m : OrderedMap α) (key other : String) (value : α) :
    (m.insert key value).get? other = if key = other then some value else m.get? other := by
  simp [get?, insert, Std.ExtTreeMap.getElem?_insert]

/-- A key is in a map exactly if something is found under it. -/
theorem contains_eq_isSome (m : OrderedMap α) (key : String) :
    m.contains key = (m.get? key).isSome := by
  simp [contains, get?]

/-- A key is in a map exactly if it is among the keys in order. -/
theorem contains_iff_mem_keys (m : OrderedMap α) (key : String) :
    m.contains key = true ↔ key ∈ m.keys :=
  Std.ExtTreeMap.contains_iff_mem.trans (m.mem_table_iff key)

/-- A new key comes behind the others, and one that is there stays where it is. -/
theorem keys_insert (m : OrderedMap α) (key : String) (value : α) :
    (m.insert key value).keys = if m.contains key then m.keys else m.keys.push key := rfl

/-- Only what is under the given key is changed. -/
theorem get?_modify (m : OrderedMap α) (key other : String) (f : α → α) :
    (m.modify key f).get? other = if key = other then (m.get? key).map f else m.get? other := by
  unfold modify
  split
  · rename_i value h
    rw [get?_insert, h]
    rfl
  · rename_i h
    split
    · rename_i heq
      rw [← heq, h]
      rfl
    · rfl

/-- A change of a value leaves the keys and their order as they were. -/
theorem keys_modify (m : OrderedMap α) (key : String) (f : α → α) :
    (m.modify key f).keys = m.keys := by
  unfold modify
  split
  · rename_i value h
    rw [keys_insert, contains_eq_isSome, h]
    rfl
  · rfl

/-- Maps are determined by the order of their keys and by the values. -/
theorem ext_get? : ∀ {m n : OrderedMap α}, m.keys = n.keys →
    (∀ key, m.get? key = n.get? key) → m = n
  | ⟨_, mtable, _, _⟩, ⟨_, ntable, _, _⟩, rfl, hget => by
    obtain rfl : mtable = ntable := Std.ExtTreeMap.ext_getElem? hget
    rfl

end OrderedMap

end BlockDiagram
