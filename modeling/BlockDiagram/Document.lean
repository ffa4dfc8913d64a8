import BlockDiagram.Document.Block
import BlockDiagram.OrderedMap

/-!
# Documents

All blocks, edges and classes of a diagram. The blocks are listed by name in the order in which they
were registered; which block holds which is said by their children, from the root on. `walk` visits
this tree from the top.
-/

namespace BlockDiagram

/-- A diagram without sizes and places. -/
structure Document where
  blocks : OrderedMap Block
  edges : Array Edge
  classes : OrderedMap StyleClass
  title : Option String
  description : Option String

namespace Document

/-- The document that holds nothing but an empty root. -/
def empty : Document where
  blocks := OrderedMap.empty.insert BlockId.root (Block.ofShape BlockId.root .composite)
  edges := #[]
  classes := .empty
  title := none
  description := none

instance : Inhabited Document := ⟨empty⟩

/-- The block of a name. -/
def block? (d : Document) (id : BlockId) : Option Block :=
  d.blocks.get? id

/-- Holds for the names of blocks. -/
def contains (d : Document) (id : BlockId) : Bool :=
  d.blocks.contains id

/-- The number of blocks, the root included. -/
def size (d : Document) : Nat :=
  d.blocks.size

/-- Registers a block, unless its name is taken. -/
def insertBlock (d : Document) (b : Block) : Document :=
  if d.contains b.id then d else { d with blocks := d.blocks.insert b.id b }

/-- Changes a block; an unknown name changes nothing. -/
def modifyBlock (d : Document) (id : BlockId) (f : Block → Block) : Document :=
  { d with blocks := d.blocks.modify id f }

/-- The names of the blocks inside a block; none for an unknown name. -/
def children (d : Document) (id : BlockId) : List BlockId :=
  (d.block? id).elim [] Block.children

/-- Puts blocks inside a block in place of those it held. -/
def setChildren (d : Document) (id : BlockId) (children : List BlockId) : Document :=
  d.modifyBlock id fun b ↦ { b with children := children }

/-- Adds an edge. -/
def pushEdge (d : Document) (e : Edge) : Document :=
  { d with edges := d.edges.push e }

/-- Changes the class of a name, which is a new one if there was none. -/
def modifyClass (d : Document) (name : String) (f : StyleClass → StyleClass) : Document :=
  let c := (d.classes.get? name).getD { name := name }
  { d with classes := d.classes.insert name (f c) }

/-- A block that is known holds its children. -/
theorem children_of_block? {d : Document} {id : BlockId} {b : Block} (h : d.block? id = some b) :
    d.children id = b.children := by
  rw [children, h]
  rfl

/-- The blocks to visit, the next one first, each with the number of levels that may lie below it. -/
abbrev Pending := List (Nat × BlockId)

/-- The number of visits in a tree that is cut off below the given number of levels. -/
def visits (d : Document) : Nat → BlockId → Nat
  | 0, _ => 1
  | levels + 1, id => 1 + (d.children id).foldr (fun child n ↦ d.visits levels child + n) 0

/-- The number of visits to all pending blocks and their trees. -/
def pendingVisits (d : Document) : Pending → Nat
  | [] => 0
  | (levels, id) :: pending => d.visits levels id + d.pendingVisits pending

private theorem visits_pos (d : Document) (levels : Nat) (id : BlockId) :
    0 < d.visits levels id := by
  cases levels with
  | zero => exact Nat.one_pos
  | succ levels =>
    rw [visits]
    omega

private theorem pendingVisits_append (d : Document) (p q : Pending) :
    d.pendingVisits (p ++ q) = d.pendingVisits p + d.pendingVisits q := by
  induction p with
  | nil => exact (Nat.zero_add _).symm
  | cons visit p ih =>
    rw [List.cons_append, pendingVisits, pendingVisits, ih, Nat.add_assoc]

private theorem pendingVisits_map (d : Document) (levels : Nat) (ids : List BlockId) :
    d.pendingVisits (ids.map fun id ↦ (levels, id)) =
      ids.foldr (fun id n ↦ d.visits levels id + n) 0 := by
  induction ids with
  | nil => rfl
  | cons id ids ih => rw [List.map_cons, pendingVisits, ih, List.foldr_cons]

/-- Visits the pending blocks, each followed by the blocks inside it. Unknown names are passed
over. -/
def walkFrom (d : Document) : Pending → List Block
  | [] => []
  | (levels, id) :: pending =>
    match _ : d.block? id with
    | none => walkFrom d pending
    | some b =>
      match levels with
      | 0 => b :: walkFrom d pending
      | levels + 1 => b :: walkFrom d (b.children.map (fun child ↦ (levels, child)) ++ pending)
termination_by pending => d.pendingVisits pending
decreasing_by
  · have := d.visits_pos levels id
    rw [pendingVisits]
    omega
  · rw [pendingVisits, visits]
    omega
  · rw [pendingVisits_append, pendingVisits_map, pendingVisits, visits,
      children_of_block? ‹d.block? id = _›]
    omega

/-- The blocks of the tree below the root, parents before their children. In a document whose tree
has no cycle no block lies deeper than the number of blocks. -/
def walk (d : Document) : List Block :=
  d.walkFrom ((d.children BlockId.root).map fun id ↦ (d.size, id))

end Document

end BlockDiagram
