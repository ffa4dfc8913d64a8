import BlockDiagram.Drawing
import BlockDiagram.Proofs.Document.Parsed
import BlockDiagram.Proofs.Layout.Separation

/-!
# Diagrams of sources

Nothing is lost between a source and its drawing. Every block that is mentioned has a place, so that
neither it nor an edge at it is left out of the diagram (`IsComplete`), and every block but a spacer
is drawn once, behind the composites around it.
-/

namespace BlockDiagram

private theorem map_of_map_some {α β : Type} {f : α → Option β} {g : β → α} {xs : List α}
    {ys : List β} (hg : ∀ x y, f x = some y → g y = x) (h : ys.map some = xs.map f) :
    ys.map g = xs := by
  induction ys generalizing xs with
  | nil =>
    rw [List.map_nil, eq_comm, List.map_eq_nil_iff] at h
    rw [h]
    rfl
  | cons y ys ih =>
    cases xs with
    | nil => cases h
    | cons x xs =>
      obtain ⟨hfirst, hrest⟩ := List.cons.inj h
      rw [List.map_cons, ih hrest, hg x y hfirst.symm]

namespace OrderedMap

variable {α : Type}

/-- The values of a map are those of its keys. -/
theorem mem_values_iff {m : OrderedMap α} {value : α} :
    value ∈ m.values ↔ ∃ key, m.get? key = some value := by
  rw [values, List.mem_filterMap]
  constructor
  · rintro ⟨key, -, h⟩
    exact ⟨key, h⟩
  · rintro ⟨key, h⟩
    refine ⟨key, Array.mem_toList_iff.2 ((m.contains_iff_mem_keys key).1 ?_), h⟩
    rw [contains_eq_isSome, h, Option.isSome_some]

/-- The value of a new key comes last. -/
theorem values_insert {m : OrderedMap α} {key : String} (h : m.contains key = false) (value : α) :
    (m.insert key value).values = m.values ++ [value] := by
  have hnew : ∀ other ∈ m.keys.toList, (m.insert key value).get? other = m.get? other := by
    intro other hother
    rw [get?_insert, if_neg]
    rintro rfl
    rw [(m.contains_iff_mem_keys key).2 (Array.mem_toList_iff.1 hother)] at h
    cases h
  rw [values, keys_insert, h, if_neg Bool.false_ne_true, Array.toList_push, List.filterMap_append,
    List.filterMap_congr hnew, values]
  simp [get?_insert]

/-- Values whose keys are all new come last, in order. -/
theorem foldl_insert {m : OrderedMap α} {f : α → String} {values : List α}
    (h : (m.keys.toList ++ values.map f).Nodup) :
    (values.foldl (fun m value ↦ m.insert (f value) value) m).keys.toList =
        m.keys.toList ++ values.map f ∧
      (values.foldl (fun m value ↦ m.insert (f value) value) m).values = m.values ++ values := by
  induction values generalizing m with
  | nil => simp
  | cons value values ih =>
    have hnew : m.contains (f value) = false := by
      rw [← Bool.not_eq_true, contains_iff_mem_keys, ← Array.mem_toList_iff]
      intro hmem
      exact (List.nodup_append.1 h).2.2 _ hmem _ List.mem_cons_self rfl
    have hkeys : (m.insert (f value) value).keys.toList = m.keys.toList ++ [f value] := by
      rw [keys_insert, hnew, if_neg Bool.false_ne_true, Array.toList_push]
    rw [List.map_cons, List.append_cons, ← hkeys] at h
    obtain ⟨hkeys', hvalues'⟩ := ih h
    rw [List.foldl_cons]
    constructor
    · rw [hkeys', hkeys, List.map_cons, ← List.append_cons]
    · rw [hvalues', values_insert hnew, ← List.append_cons]

end OrderedMap

/-! ### Diagrams -/

namespace Diagram

variable {α : Type} {d : Document} {layout : Layout α}

private theorem block_of_placed? {b : Block} {placed : PlacedBlock α}
    (h : placed? layout b = some placed) : placed.block = b := by
  rw [placed?] at h
  obtain ⟨center, -, h⟩ := Option.bind_eq_some_iff.1 h
  obtain ⟨size, -, h⟩ := Option.bind_eq_some_iff.1 h
  cases h
  rfl

/-- Blocks that have places are all in the diagram. -/
theorem map_some_filterMap_placed? {blocks : List Block} (h : ∀ b ∈ blocks, ∃ center size,
      layout.centers.get? b.id = some center ∧ layout.sizes.get? b.id = some size) :
    (blocks.filterMap (placed? layout)).map some = blocks.map (placed? layout) := by
  rw [List.map_filterMap_some_eq_filter_map_isSome, List.filter_eq_self]
  intro placed hplaced
  obtain ⟨b, hb, rfl⟩ := List.mem_map.1 hplaced
  obtain ⟨center, size, hcenter, hsize⟩ := h b hb
  rw [placed?, hcenter, hsize]
  rfl

section

variable [Scalar α]

/-- The edge with the points it passes, if both its ends have a place. -/
def routed? (layout : Layout α) (e : Edge) : Option (RoutedEdge α) := do
  return route e (← layout.centers.get? e.start) (← layout.centers.get? e.target)

/-- Edges whose ends have places are all in the diagram, and none is an error. -/
theorem exists_routes {edges : List Edge} (h : ∀ e ∈ edges, ∀ id ∈ [e.start, e.target],
      d.contains id = true ∧ ∃ center, layout.centers.get? id = some center) :
    ∃ routed, routes d layout edges = .ok routed ∧
      routed.map some = edges.map (routed? layout) := by
  induction edges with
  | nil => exact ⟨[], rfl, rfl⟩
  | cons e edges ih =>
    obtain ⟨he, hedges⟩ := List.forall_mem_cons.1 h
    obtain ⟨routed, hrouted, hmap⟩ := ih hedges
    obtain ⟨hstart, htarget⟩ := List.forall_mem_cons.1 he
    obtain ⟨hcontainsstart, start, hstart⟩ := hstart
    obtain ⟨hcontainstarget, target, htarget⟩ := htarget _ List.mem_cons_self
    have hknown : [e.start, e.target].find? (fun id ↦ !d.contains id) = none := by
      simp [hcontainsstart, hcontainstarget]
    refine ⟨route e start target :: routed, ?_, ?_⟩
    · rw [routes, hknown]
      simp only [hrouted, hstart, htarget]
      rfl
    · rw [List.map_cons, List.map_cons, hmap, routed?, hstart, htarget]
      rfl

private theorem edge_of_routed? {e : Edge} {routed : RoutedEdge α}
    (h : routed? layout e = some routed) : routed.edge = e := by
  rw [routed?] at h
  obtain ⟨start, -, h⟩ := Option.bind_eq_some_iff.1 h
  obtain ⟨target, -, h⟩ := Option.bind_eq_some_iff.1 h
  cases h
  rfl

/-- Holds for a diagram with all blocks below the root, in the order of the walk, and all edges, at the
places of a layout. -/
structure IsComplete (diagram : Diagram α) (d : Document) (layout : Layout α) : Prop where
  keys : diagram.blocks.keys.toList = d.walk.map Block.id
  blocks : diagram.blocks.values.map some = d.walk.map (placed? layout)
  edges : diagram.edges.map some = d.edges.toList.map (routed? layout)

namespace IsComplete

variable {diagram : Diagram α}

/-- The blocks of a complete diagram are those of the walk, in its order. -/
theorem map_block (h : diagram.IsComplete d layout) :
    diagram.blocks.values.map PlacedBlock.block = d.walk :=
  map_of_map_some (fun _ _ ↦ block_of_placed?) h.blocks

/-- The edges of a complete diagram are those of the document, in their order. -/
theorem map_edge (h : diagram.IsComplete d layout) :
    diagram.edges.map RoutedEdge.edge = d.edges.toList :=
  map_of_map_some (fun _ _ ↦ edge_of_routed?) h.edges

end IsComplete

/-- The diagram of a layout that has a place for everything. -/
theorem exists_isComplete (hnodup : (d.walk.map Block.id).Nodup)
    (hends : ∀ e ∈ d.edges.toList, ∀ id ∈ [e.start, e.target], id ∈ d.walk.map Block.id)
    (hplaced : ∀ id ∈ d.walk.map Block.id, d.contains id = true ∧ ∃ center size,
      layout.centers.get? id = some center ∧ layout.sizes.get? id = some size) :
    ∃ diagram, resolve d layout = .ok diagram ∧ diagram.IsComplete d layout := by
  have hblocks := map_some_filterMap_placed? fun b hb ↦
    (hplaced b.id (List.mem_map_of_mem hb)).2
  have hids : ((d.walk.filterMap (placed? layout)).map fun b ↦ b.block.id) =
      d.walk.map Block.id := by
    have hmap := congrArg (List.map Block.id)
      (map_of_map_some (fun _ _ ↦ block_of_placed?) hblocks)
    rwa [List.map_map] at hmap
  obtain ⟨routed, hrouted, hedges⟩ := @exists_routes α d layout _ d.edges.toList
    fun e he id hid ↦ by
      obtain ⟨hcontains, center, size, hcenter, -⟩ := hplaced id (hends e he id hid)
      exact ⟨hcontains, center, hcenter⟩
  have hnew : ((OrderedMap.empty : OrderedMap (PlacedBlock α)).keys.toList ++
      (d.walk.filterMap (placed? layout)).map fun b ↦ b.block.id).Nodup := by
    rwa [hids]
  obtain ⟨hkeys, hvalues⟩ := OrderedMap.foldl_insert hnew
  rw [resolve, hrouted]
  refine ⟨_, rfl, hkeys.trans hids, ?_, hedges⟩
  rw [← hblocks]
  exact congrArg (List.map some) hvalues

end

end Diagram

/-! ### Drawings -/

variable {α : Type} [MetricScalar α]

/-- Only spacers have no figure. -/
theorem Shape.figure?_eq_none_iff (shape : Shape) :
    (shape.figure? : Option (Figure α)) = none ↔ shape = .space := by
  cases shape <;> simp [figure?]

/-- What a step draws. -/
def DrawStep.subject : DrawStep α → PlacedBlock α ⊕ RoutedEdge α
  | block b _ => .inl b
  | edge e _ => .inr e

namespace Diagram

variable {diagram : Diagram α} {d : Document} {layout : Layout α}

/-- The blocks of a diagram that are no spacers. -/
def visible (diagram : Diagram α) : List (PlacedBlock α) :=
  diagram.blocks.values.filter fun b ↦ !b.block.isSpace

/-- Holds for diagrams of a document that are drawn with nothing left out: first the blocks, each
composite in front of what is inside of it, and then the edges. -/
structure IsDrawn (diagram : Diagram α) (d : Document) : Prop where
  subjects : diagram.drawing.map DrawStep.subject =
    diagram.visible.map .inl ++ diagram.edges.map .inr
  outside_in : diagram.visible.Pairwise fun first second ↦
    ¬ d.Encloses second.block.id first.block.id

/-- The steps for blocks are those for all blocks but the spacers. -/
theorem map_subject_blockSteps (diagram : Diagram α) :
    diagram.blockSteps.map DrawStep.subject = diagram.visible.map .inl := by
  rw [blockSteps, visible]
  induction diagram.blocks.values with
  | nil => rfl
  | cons b blocks ih =>
    have hfigure : (b.block.shape.figure? : Option (Figure α)) = none ↔ b.block.shape = .space :=
      b.block.shape.figure?_eq_none_iff
    cases hcase : (b.block.shape.figure? : Option (Figure α)) with
    | none =>
      rw [List.filterMap_cons_none (by rw [hcase]; rfl), ih, List.filter_cons_of_neg]
      simpa [Block.isSpace] using hfigure.1 hcase
    | some figure =>
      rw [List.filterMap_cons_some (by rw [hcase]; rfl), List.map_cons, ih, List.filter_cons_of_pos]
      · rfl
      · simpa [Block.isSpace, hcase] using hfigure

/-- The steps for edges are those for all edges if their ends are in the diagram. -/
theorem map_subject_edgeSteps (h : ∀ e ∈ diagram.edges, ∀ id ∈ [e.edge.start, e.edge.target],
      id ∈ diagram.blocks.keys.toList) :
    diagram.edgeSteps.map DrawStep.subject = diagram.edges.map .inr := by
  have hget : ∀ id ∈ diagram.blocks.keys.toList, ∃ b, diagram.blocks.get? id = some b := by
    intro id hid
    have hcontains := (diagram.blocks.contains_iff_mem_keys id).2 (Array.mem_toList_iff.1 hid)
    rw [OrderedMap.contains_eq_isSome] at hcontains
    exact Option.isSome_iff_exists.1 hcontains
  rw [edgeSteps]
  generalize diagram.edges = edges at h ⊢
  induction edges with
  | nil => rfl
  | cons e edges ih =>
    obtain ⟨he, hedges⟩ := List.forall_mem_cons.1 h
    obtain ⟨start, hstart⟩ := hget _ (he _ List.mem_cons_self)
    obtain ⟨target, htarget⟩ := hget _ (he _ (List.mem_cons_of_mem _ List.mem_cons_self))
    rw [List.filterMap_cons_some (by rw [hstart, htarget]; rfl), List.map_cons, ih hedges]
    rfl

/-- The edges of a diagram pass three points each: both ends and the point between them. -/
theorem exists_route_of_routes {edges : List Edge} {routed : List (RoutedEdge α)}
    (h : routes d layout edges = .ok routed) :
    ∀ e ∈ routed, ∃ start target, e = route e.edge start target := by
  induction edges generalizing routed with
  | nil =>
    cases h
    exact List.forall_mem_nil _
  | cons e edges ih =>
    rw [routes] at h
    split at h
    · cases h
    · obtain ⟨rest, hrest, h⟩ := bind_eq_ok_iff.1 h
      split at h
      · next start target _ _ =>
        cases h
        exact List.forall_mem_cons.2 ⟨⟨start, target, rfl⟩, ih hrest⟩
      · cases h
        exact ih hrest

/-- No edge is drawn without points. -/
theorem points_ne_nil_of_resolve (h : resolve d layout = .ok diagram) {e : RoutedEdge α}
    {points : List (Point α)} (hstep : .edge e points ∈ diagram.drawing) : points ≠ [] := by
  obtain ⟨routed, hrouted, h⟩ := bind_eq_ok_iff.1 h
  cases h
  rcases List.mem_append.1 hstep with hstep | hstep
  · obtain ⟨b, -, hb⟩ := List.mem_filterMap.1 hstep
    obtain ⟨figure, -, heq⟩ := Option.map_eq_some_iff.1 hb
    cases heq
  · obtain ⟨e', he', hsteps⟩ := List.mem_filterMap.1 hstep
    obtain ⟨start, -, hsteps⟩ := Option.bind_eq_some_iff.1 hsteps
    obtain ⟨target, -, hsteps⟩ := Option.bind_eq_some_iff.1 hsteps
    cases hsteps
    obtain ⟨first, last, hroute⟩ := exists_route_of_routes hrouted e he'
    rw [hroute]
    exact List.append_ne_nil_of_right_ne_nil _ (List.cons_ne_nil _ _)

/-- A complete diagram is drawn with nothing left out. -/
theorem IsComplete.isDrawn (h : diagram.IsComplete d layout)
    (hends : ∀ e ∈ d.edges.toList, ∀ id ∈ [e.start, e.target], id ∈ d.walk.map Block.id)
    (horder : (d.walk.map Block.id).Pairwise fun first second ↦ ¬ d.Encloses second first) :
    diagram.IsDrawn d where
  subjects := by
    rw [drawing, List.map_append, map_subject_blockSteps, map_subject_edgeSteps]
    intro e he
    rw [h.keys]
    refine hends e.edge ?_
    rw [← h.map_edge]
    exact List.mem_map_of_mem he
  outside_in := by
    rw [← h.map_block, List.pairwise_map, List.pairwise_map] at horder
    exact horder.filter _

/-! ### Sources -/

/-- Every layout of a document that is as statements describe it has a diagram with nothing left
out. -/
theorem exists_isDrawn_of_arrange {ss : List (Source.Located Statement)} {mentions : List Mention}
    (hss : WellFormed ss) (h : d.Describes ss mentions) {padding : α} {labels : Layout.Sizes α}
    (harrange : Layout.arrange d padding labels = .ok layout) :
    ∃ diagram, resolve d layout = .ok diagram ∧ diagram.IsComplete d layout ∧ diagram.IsDrawn d := by
  obtain ⟨hnodup, hwalk⟩ := h.listed.map_id_walk h.sound
  have hends : ∀ e ∈ d.edges.toList, ∀ id ∈ [e.start, e.target], id ∈ d.walk.map Block.id :=
    fun e he id hid ↦ h.mem_walk_iff.2 (h.ends_mem hss e he id hid)
  have hplaced : ∀ id ∈ d.walk.map Block.id, d.contains id = true ∧ ∃ center size,
      layout.centers.get? id = some center ∧ layout.sizes.get? id = some size := by
    intro id hid
    have hmem := List.mem_cons_of_mem BlockId.root ((hwalk id).1 hid)
    exact ⟨h.listed.contains id hmem, Layout.exists_place_of_arrange h.listed harrange id hmem⟩
  obtain ⟨diagram, hdiagram, hcomplete⟩ := exists_isComplete hnodup hends hplaced
  exact ⟨diagram, hdiagram, hcomplete, hcomplete.isDrawn hends (h.listed.pairwise_walk h.sound)⟩

/-- Every layout of a source that does not declare the root has a diagram, with the blocks of the
document in the order of the walk and with the edges of the source in order, and it is drawn with
nothing left out. Only the root and blocks that are there for a class alone are not in it. -/
theorem isDrawn_of_parse {limit : Nat} {source : String} {ss : List (Source.Located Statement)}
    (hss : statements source = .ok ss) (hd : Document.parse limit source = .ok d)
    (hroot : BlockId.root ∉ namesIn ss) :
    (∃ mentions, Mentions [BlockId.root] BlockId.root ss mentions ∧
      ∀ id, id ∈ d.walk.map Block.id ↔ d.contains id = true ∧ id ≠ BlockId.root ∧
        ¬ (id ∈ classedIn ss ∧ id ∉ idsOf mentions)) ∧
    (d.walk.map Block.id).Nodup ∧
    d.edges.toList.map Edge.ends = (edgesIn ss).map EdgeDecl.ends ∧
    (∀ (padding : α) (labels : Layout.Sizes α) (layout : Layout α),
      Layout.arrange d padding labels = .ok layout → ∃ diagram, resolve d layout = .ok diagram ∧
        diagram.IsComplete d layout ∧ diagram.IsDrawn d) ∧
    ∀ (settings : Layout.Settings α) (measure : String → Size α) (layout : Layout α),
      Layout.compute settings measure d = .ok layout → ∃ diagram, resolve d layout = .ok diagram ∧
        diagram.IsComplete d layout ∧ diagram.IsDrawn d := by
  obtain ⟨mentions, h⟩ := Document.describes_of_parse hss hd hroot
  have hnodup := (h.listed.map_id_walk h.sound).1
  refine ⟨⟨mentions, h.mentioned, fun id ↦ ?_⟩, hnodup, h.edges,
    fun padding labels layout harrange ↦ ?_, fun settings measure layout hcompute ↦ ?_⟩
  · rw [h.mem_walk_iff]
    constructor
    · intro hid
      refine ⟨h.listed.contains id (List.mem_cons_of_mem _ (h.mem_listed_iff.2 hid)), ?_, ?_⟩
      · rintro rfl
        exact h.root hid
      · exact fun hclassed ↦ hclassed.2 hid
    · rintro ⟨hcontains, hne, hnot⟩
      rcases h.added id hcontains with heq | hid | hclassed
      · exact absurd heq hne
      · exact hid
      · exact not_not.1 fun hid ↦ hnot ⟨hclassed, hid⟩
  · exact exists_isDrawn_of_arrange (wellFormed_of_statements hss) h harrange
  · exact exists_isDrawn_of_arrange (wellFormed_of_statements hss) h
      (Layout.arrange_of_compute hcompute).2

/-- The edge behind a composite that is opened twice is drawn. -/
theorem exists_drawing_reopened : ∃ (ss : List (Source.Located Statement)) (d : Document)
    (layout : Layout Float32) (diagram : Diagram Float32),
    statements Document.reopened = .ok ss ∧ Document.parse 9 Document.reopened = .ok d ∧
      Layout.arrange d 8 Layout.reopenedLabels = .ok layout ∧ resolve d layout = .ok diagram ∧
      diagram.edges.map (fun e ↦ e.edge.ends) = [("a", "b")] ∧
      diagram.drawing.map DrawStep.subject =
        diagram.visible.map .inl ++ diagram.edges.map .inr := by
  obtain ⟨ss, d, hss, hd, hroot, -, hsize, -, hcolumns, hedges⟩ := Document.exists_reopened
  obtain ⟨-, -, -, hdrawn, -⟩ := @isDrawn_of_parse Float32 _ _ _ _ _ hss hd hroot
  obtain ⟨mentions, h⟩ := Document.describes_of_parse hss hd hroot
  obtain ⟨layout, hlayout⟩ :=
    Layout.exists_arrange h.sound h.listed hcolumns (by rw [hsize]; decide) (8 : Float32)
      Layout.reopenedLabels
  obtain ⟨diagram, hdiagram, hcomplete, hsteps⟩ := hdrawn 8 _ layout hlayout
  refine ⟨ss, d, layout, diagram, hss, hd, hlayout, hdiagram, ?_, hsteps.subjects⟩
  rw [← hedges, ← hcomplete.map_edge, List.map_map]
  rfl

end Diagram

end BlockDiagram
