import BlockDiagram.Proofs.Svg.Identifiers

/-!
# Markers in pictures

The paths of edges refer to markers, and the definitions at the top of a picture define them. Nothing
else in a picture has to do with markers (`filter_nodes_ofDiagram`), so exactly those that edges refer
to are defined, each once (`markers_ofDiagram`).
-/

namespace BlockDiagram.Svg

/-! ### Elements and their attributes -/

/-- The attributes that refer to markers. -/
def usesIn (attributes : List (String × String)) : List (String × String) :=
  attributes.filter fun entry ↦ entry.1 = "marker-start" ∨ entry.1 = "marker-end"

@[simp] private theorem usesIn_nil : usesIn [] = [] := rfl

@[simp] private theorem usesIn_cons (entry : String × String)
    (attributes : List (String × String)) :
    usesIn (entry :: attributes) = if entry.1 = "marker-start" ∨ entry.1 = "marker-end" then
      entry :: usesIn attributes else usesIn attributes := by
  simp [usesIn, List.filter_cons]

@[simp] private theorem usesIn_append (front back : List (String × String)) :
    usesIn (front ++ back) = usesIn front ++ usesIn back :=
  List.filter_append _ _

namespace Node

mutual

/-- A node and all nodes in it, from the top. -/
def nodes : Node → List Node
  | text content => [text content]
  | element name attributes children => element name attributes children :: nodesOfAll children

/-- Several nodes and all nodes in them. -/
def nodesOfAll : List Node → List Node
  | [] => []
  | node :: rest => node.nodes ++ nodesOfAll rest

end

private theorem nodesOfAll_eq_flatMap (children : List Node) :
    nodesOfAll children = children.flatMap nodes := by
  induction children with
  | nil => rfl
  | cons node rest ih => rw [nodesOfAll, ih, List.flatMap_cons]

@[simp] private theorem nodes_text (content : String) : (text content).nodes = [text content] := by
  rw [nodes]

@[simp] private theorem nodes_element (name : String) (attributes : List (String × String))
    (children : List Node) : (element name attributes children).nodes =
      element name attributes children :: children.flatMap nodes := by
  rw [nodes, nodesOfAll_eq_flatMap]

/-- Holds for the elements of a name. -/
def isNamed (name : String) : Node → Bool
  | text _ => false
  | element other _ _ => other = name

/-- The attributes of an element; a text has none. -/
def attributes : Node → List (String × String)
  | text _ => []
  | element _ attributes _ => attributes

/-- The nodes in an element. -/
def children : Node → List Node
  | text _ => []
  | element _ _ children => children

/-- Holds for the elements that refer to markers. -/
def refersToMarker (node : Node) : Bool :=
  !(usesIn node.attributes).isEmpty

/-- Holds for definitions, for markers and for what refers to a marker. -/
def concernsMarkers (node : Node) : Bool :=
  node.isNamed "defs" || node.isNamed "marker" || node.refersToMarker

private theorem refersToMarker_iff {node : Node} :
    node.refersToMarker = true ↔ usesIn node.attributes ≠ [] := by
  simp [refersToMarker]

/-- Holds for nodes that have to do with markers nowhere in them. -/
def IsPlain (node : Node) : Prop :=
  ∀ n ∈ node.nodes, n.concernsMarkers = false

@[simp] private theorem isPlain_text (content : String) : (text content).IsPlain := by
  simp [IsPlain, concernsMarkers, isNamed, refersToMarker, attributes]

@[simp] private theorem isPlain_element (name : String) (attributes : List (String × String))
    (children : List Node) : (element name attributes children).IsPlain ↔
      name ≠ "defs" ∧ name ≠ "marker" ∧ usesIn attributes = [] ∧
        ∀ child ∈ children, child.IsPlain := by
  have htop : (element name attributes children).concernsMarkers = false ↔
      name ≠ "defs" ∧ name ≠ "marker" ∧ usesIn attributes = [] := by
    simp [concernsMarkers, isNamed, refersToMarker, Node.attributes, and_assoc]
  unfold IsPlain
  rw [nodes_element, List.forall_mem_cons, htop, List.forall_mem_flatMap, and_assoc, and_assoc]

end Node

open Node

/-! ### What has nothing to do with markers -/

@[simp] private theorem usesIn_styleOf (declarations : List String) :
    usesIn (styleOf declarations) = [] := by
  rw [styleOf]
  split <;> simp

@[simp] private theorem usesIn_strokeAttributes (stroke : Stroke) :
    usesIn (strokeAttributes stroke) = [] := by
  cases stroke <;> simp [strokeAttributes]

@[simp] private theorem isPlain_figure (b : PlacedBlock Float32) (f : Figure Float32) :
    (figure b f).IsPlain := by
  cases f with
  | outline shape =>
    rw [figure]
    split <;> simp [polygon, rectangle]
  | _ => simp [figure, rectangle, circle, bar]

private theorem isPlain_blockGroup (classes : OrderedMap StyleClass) (b : PlacedBlock Float32)
    (f : Figure Float32) : (blockGroup classes b f).IsPlain := by
  simp [blockGroup]

private theorem isPlain_label {font : Font} {content : String} {center : Point Float32}
    {more : List (String × String)} (h : usesIn more = []) :
    (label font content center more).IsPlain := by
  unfold label
  dsimp only
  rw [isPlain_element, List.forall_mem_cons, List.forall_mem_map]
  refine ⟨by decide, by decide, by simp [h], isPlain_text _, fun entry _ ↦ ?_⟩
  simp [labelLine]

private theorem isPlain_of_mem_blockLabel {font : Font} {classes : OrderedMap StyleClass}
    {b : PlacedBlock Float32} {f : Figure Float32} :
    ∀ node ∈ blockLabel font classes b f, node.IsPlain := by
  rw [blockLabel]
  split
  · simp
  · simp [isPlain_label]

private theorem isPlain_of_mem_edgeLabel {font : Font} {e : Edge} {points : List (Point Float32)} :
    ∀ node ∈ edgeLabel font e points, node.IsPlain := by
  rw [edgeLabel]
  split
  · exact List.forall_mem_singleton.2 (isPlain_label usesIn_nil)
  · exact List.forall_mem_nil _

private theorem isPlain_of_mem_accessibleText {title description : Option String} :
    ∀ node ∈ accessibleText title description, node.IsPlain := by
  cases title <;> cases description <;> simp [accessibleText]

private theorem isPlain_backgroundBox (size : Size Float32) (color : Color) :
    (backgroundBox size color).IsPlain := by
  simp [backgroundBox]

private theorem EndMarker.isPlain_of_mem_picture {m : EndMarker} :
    ∀ node ∈ m.picture, node.IsPlain := by
  rw [picture]
  split <;> simp

/-! ### Paths of edges -/

/-- The path of an edge refers to the markers of the edge. -/
theorem usesIn_edgePath (e : Edge) (points : List (Point Float32)) :
    usesIn (edgePath e points).attributes =
      (EndMarker.ofEdge e).map fun (name, m) ↦ (name, m.reference) := by
  have hnames : ∀ entry ∈ EndMarker.ofEdge e,
      entry.1 = "marker-start" ∨ entry.1 = "marker-end" := by
    unfold EndMarker.ofEdge
    split <;> simp +contextual
  have huses : usesIn ((EndMarker.ofEdge e).map fun (name, m) ↦ (name, m.reference)) =
      (EndMarker.ofEdge e).map fun (name, m) ↦ (name, m.reference) := by
    rw [usesIn, List.filter_eq_self, List.forall_mem_map]
    simpa using hnames
  rw [edgePath, attributes, usesIn_append, huses]
  simp

/-- The markers of an edge that is drawn. -/
theorem mem_ofEdge {e : Edge} {entry : String × EndMarker} (h : entry ∈ EndMarker.ofEdge e) :
    e.stroke ≠ .invisible := by
  intro hstroke
  rw [EndMarker.ofEdge, if_pos hstroke] at h
  cases h

/-! ### Pictures -/

/-- The edges that are drawn, with the points they pass. -/
def drawnEdges (diagram : Diagram Float32) : List (RoutedEdge Float32 × List (Point Float32)) :=
  diagram.drawing.filterMap fun
    | .block _ _ => none
    | .edge e points => some (e, points)

/-- The paths of the edges that are drawn. -/
def drawnPaths (diagram : Diagram Float32) : List Node :=
  (drawnEdges diagram).map fun (e, points) ↦ edgePath e.edge points

/-- The markers of the edges that are drawn, each once. -/
def usedMarkers (diagram : Diagram Float32) : List EndMarker :=
  markersOf ((drawnEdges diagram).map fun (e, _) ↦ e.edge)

private theorem mem_drawnEdges_iff {diagram : Diagram Float32} {e : RoutedEdge Float32}
    {points : List (Point Float32)} :
    (e, points) ∈ drawnEdges diagram ↔ .edge e points ∈ diagram.drawing := by
  rw [drawnEdges, List.mem_filterMap]
  constructor
  · rintro ⟨_ | ⟨e', points'⟩, hstep, heq⟩
    · cases heq
    · cases heq
      exact hstep
  · exact fun hstep ↦ ⟨_, hstep, rfl⟩

/-- What is made of edges only is made of those that are drawn. -/
theorem flatMap_partsOf_eq {β : Type} (font : Font) (diagram : Diagram Float32) {f : Parts → List β}
    {g : RoutedEdge Float32 × List (Point Float32) → List β}
    (hblock : ∀ b figure, f (partsOf font diagram.classes (.block b figure)) = [])
    (hedge : ∀ e points, f (partsOf font diagram.classes (.edge e points)) = g (e, points)) :
    (diagram.drawing.map (partsOf font diagram.classes)).flatMap f =
      (drawnEdges diagram).flatMap g := by
  rw [drawnEdges]
  induction diagram.drawing with
  | nil => rfl
  | cons step steps ih =>
    cases step with
    | block b figure => simp [hblock, ih]
    | edge e points => simp [hedge, ih]

/-- Figures and labels have nothing to do with markers. -/
theorem isPlain_of_mem_parts {font : Font} {classes : OrderedMap StyleClass}
    {steps : List (DrawStep Float32)} {node : Node}
    (h : node ∈ (steps.map (partsOf font classes)).flatMap Parts.figures ∨
      node ∈ (steps.map (partsOf font classes)).flatMap Parts.labels) : node.IsPlain := by
  simp only [List.mem_flatMap, List.mem_map] at h
  obtain ⟨_, ⟨step, -, rfl⟩, hnode⟩ | ⟨_, ⟨step, -, rfl⟩, hnode⟩ := h
  · cases step with
    | block b f =>
      obtain rfl := List.mem_singleton.1 hnode
      exact isPlain_blockGroup classes b f
    | edge e points => cases hnode
  · cases step with
    | block b f => exact isPlain_of_mem_blockLabel node hnode
    | edge e points => exact isPlain_of_mem_edgeLabel node hnode

/-! ### Nodes that concern markers -/

section

variable {p : Node → Bool} (hp : ∀ node, p node = true → node.concernsMarkers = true)

include hp

private theorem filter_flatMap_of_isPlain {trees : List Node} (h : ∀ tree ∈ trees, tree.IsPlain) :
    (trees.flatMap nodes).filter p = [] := by
  rw [List.filter_eq_nil_iff, List.forall_mem_flatMap]
  intro tree htree node hnode hnodep
  have hplain := h tree htree node hnode
  rw [hp node hnodep] at hplain
  cases hplain

private theorem filter_nodes_of_plain {name : String} {attributes : List (String × String)}
    {children : List Node} (h : (element name attributes []).IsPlain) :
    (element name attributes children).nodes.filter p = (children.flatMap nodes).filter p := by
  rw [nodes_element, List.filter_cons_of_neg]
  intro htop
  rw [isPlain_element] at h
  have hconcerns := hp _ htop
  simp [concernsMarkers, isNamed, refersToMarker, Node.attributes, h] at hconcerns

/-- Only definitions and the paths of edges have to do with markers. -/
theorem filter_nodes_ofDiagram (font : Font) (background : Option Color)
    (diagram : Diagram Float32) :
    (ofDiagram font background diagram).nodes.filter p =
      ((definitions (usedMarkers diagram)).flatMap nodes).filter p ++
        (drawnPaths diagram).filter p := by
  have hmarkers : ((diagram.drawing.map (partsOf font diagram.classes)).flatMap
      Parts.markers).eraseDups = usedMarkers diagram := by
    have hedges := flatMap_partsOf_eq font diagram (f := Parts.markers)
      (g := fun entry ↦ (EndMarker.ofEdge entry.1.edge).map Prod.snd) (fun _ _ ↦ rfl) fun _ _ ↦ rfl
    rw [hedges, usedMarkers, markersOf, List.flatMap_map]
  have hpaths : (diagram.drawing.map (partsOf font diagram.classes)).flatMap Parts.paths =
      drawnPaths diagram := by
    have hedges := flatMap_partsOf_eq font diagram (f := Parts.paths)
      (g := fun entry ↦ [edgePath entry.1.edge entry.2]) (fun _ _ ↦ rfl) fun _ _ ↦ rfl
    rw [hedges, drawnPaths, List.map_eq_flatMap]
  have hnodes : (drawnPaths diagram).flatMap nodes = drawnPaths diagram := by
    rw [drawnPaths, List.flatMap_map, List.map_eq_flatMap]
    simp [edgePath]
  have hbackground : ∀ tree ∈ (background.map (backgroundBox (pictureSize diagram.bounds))).toList,
      tree.IsPlain := by
    cases background <;> simp [isPlain_backgroundBox]
  unfold ofDiagram
  dsimp only
  rw [filter_nodes_of_plain hp (by simp), hmarkers, hpaths]
  simp only [List.flatMap_append, List.filter_append, List.flatMap_singleton,
    filter_flatMap_of_isPlain hp isPlain_of_mem_accessibleText,
    filter_flatMap_of_isPlain hp hbackground]
  rw [filter_nodes_of_plain hp (by simp)]
  simp only [List.flatMap_append, List.filter_append, hnodes,
    filter_flatMap_of_isPlain hp fun _ h ↦ isPlain_of_mem_parts (.inl h),
    filter_flatMap_of_isPlain hp fun _ h ↦ isPlain_of_mem_parts (.inr h), List.nil_append,
    List.append_nil]

/-- Inside the definitions only they themselves and the markers have to do with markers. -/
theorem filter_nodes_definitions (markers : List EndMarker) :
    ((definitions markers).flatMap nodes).filter p =
      (definitions markers ++ markers.map EndMarker.definition).filter p := by
  have hdefinition : ∀ m : EndMarker, m.definition.nodes.filter p = [m.definition].filter p := by
    intro m
    have hnodes : m.definition.nodes = [m.definition] ++ m.picture.flatMap nodes := by
      simp [EndMarker.definition]
    rw [hnodes, List.filter_append, filter_flatMap_of_isPlain hp EndMarker.isPlain_of_mem_picture,
      List.append_nil]
  unfold definitions
  split
  · next hempty =>
    rw [List.isEmpty_iff.1 hempty]
    rfl
  · rw [List.flatMap_singleton, nodes_element, List.flatMap_map, ← List.singleton_append,
      List.filter_append, List.filter_append, List.filter_flatMap, List.map_eq_flatMap,
      List.filter_flatMap]
    simp only [hdefinition]

end

/-! ### Definitions and references -/

namespace Node

/-- The elements of a name in a tree, from the top. -/
def named (name : String) (node : Node) : List Node :=
  node.nodes.filter (isNamed name)

/-- What is in the definitions of a picture. -/
def defined (node : Node) : List Node :=
  (node.named "defs").flatMap children

end Node

section

variable (font : Font) (background : Option Color) (diagram : Diagram Float32)

private theorem named_defs_ofDiagram :
    (ofDiagram font background diagram).named "defs" = definitions (usedMarkers diagram) := by
  have hp : ∀ node, isNamed "defs" node = true → node.concernsMarkers = true := by
    simp +contextual [concernsMarkers]
  rw [named, filter_nodes_ofDiagram hp, filter_nodes_definitions hp, definitions, drawnPaths]
  split <;> simp [isNamed, edgePath, EndMarker.definition, List.filter_map, Function.comp_def]

private theorem named_marker_ofDiagram :
    (ofDiagram font background diagram).named "marker" =
      (usedMarkers diagram).map EndMarker.definition := by
  have hp : ∀ node, isNamed "marker" node = true → node.concernsMarkers = true := by
    simp +contextual [concernsMarkers]
  rw [named, filter_nodes_ofDiagram hp, filter_nodes_definitions hp, definitions, drawnPaths]
  split <;> simp [isNamed, edgePath, EndMarker.definition, List.filter_map, Function.comp_def]

private theorem defined_ofDiagram :
    (ofDiagram font background diagram).defined =
      (usedMarkers diagram).map EndMarker.definition := by
  rw [defined, named_defs_ofDiagram, definitions]
  split
  · next hempty =>
    rw [List.isEmpty_iff.1 hempty]
    rfl
  · simp [children]

/-- What refers to markers are paths of edges. -/
theorem mem_drawnPaths {node : Node} (h : node ∈ (ofDiagram font background diagram).nodes)
    (huses : usesIn node.attributes ≠ []) : node ∈ drawnPaths diagram := by
  have hp : ∀ node, refersToMarker node = true → node.concernsMarkers = true := by
    simp +contextual [concernsMarkers]
  have hmem := List.mem_filter.2 ⟨h, refersToMarker_iff.2 huses⟩
  rw [filter_nodes_ofDiagram hp, filter_nodes_definitions hp, List.mem_append] at hmem
  rcases hmem with hmem | hmem
  · -- neither the definitions nor the markers in them refer to any
    obtain ⟨hnode, -⟩ := List.mem_filter.1 hmem
    refine absurd ?_ huses
    rcases List.mem_append.1 hnode with hnode | hnode
    · unfold definitions at hnode
      split at hnode
      · cases hnode
      · rw [List.mem_singleton.1 hnode]
        rfl
    · obtain ⟨m, -, rfl⟩ := List.mem_map.1 hnode
      simp [EndMarker.definition, attributes]
  · exact (List.mem_filter.1 hmem).1

/-- The paths of all edges that are drawn are in the picture. -/
theorem edgePath_mem_nodes {e : RoutedEdge Float32} {points : List (Point Float32)}
    (h : .edge e points ∈ diagram.drawing) :
    edgePath e.edge points ∈ (ofDiagram font background diagram).nodes := by
  unfold ofDiagram
  dsimp only
  rw [nodes_element]
  apply List.mem_cons_of_mem
  rw [List.mem_flatMap]
  refine ⟨_, List.mem_append_right _ (List.mem_singleton_self _), ?_⟩
  rw [nodes_element]
  apply List.mem_cons_of_mem
  rw [List.mem_flatMap]
  refine ⟨edgePath e.edge points, List.mem_append_left _ (List.mem_append_right _ ?_), ?_⟩
  · exact List.mem_flatMap.2 ⟨_, List.mem_map_of_mem h, List.mem_singleton_self _⟩
  · simp [edgePath]

/-- The names of the markers that a picture defines. -/
def definedNames (picture : Node) : List String :=
  picture.defined.flatMap fun marker ↦ idsIn marker.attributes

private theorem definedNames_ofDiagram :
    definedNames (ofDiagram font background diagram) =
      (usedMarkers diagram).map EndMarker.id := by
  rw [definedNames, defined_ofDiagram, List.flatMap_map, List.map_eq_flatMap]
  simp [EndMarker.definition, attributes]

/-- A marker is used if an edge that is drawn has it. -/
theorem mem_usedMarkers_iff {m : EndMarker} : m ∈ usedMarkers diagram ↔
    ∃ e points name, .edge e points ∈ diagram.drawing ∧ (name, m) ∈ EndMarker.ofEdge e.edge := by
  rw [usedMarkers, markersOf, List.mem_eraseDups, List.flatMap_map, List.mem_flatMap]
  constructor
  · rintro ⟨⟨e, points⟩, hedge, hm⟩
    obtain ⟨⟨name, m⟩, hentry, rfl⟩ := List.mem_map.1 hm
    exact ⟨e, points, name, mem_drawnEdges_iff.1 hedge, hentry⟩
  · rintro ⟨e, points, name, hedge, hm⟩
    exact ⟨(e, points), mem_drawnEdges_iff.2 hedge, List.mem_map.2 ⟨_, hm, rfl⟩⟩

/-- What refers to a marker is the path of an edge, and the marker is one of those that are used. -/
theorem exists_usedMarker {node : Node} (hnode : node ∈ (ofDiagram font background diagram).nodes)
    {entry : String × String} (hentry : entry ∈ usesIn node.attributes) :
    (∃ e points, .edge e points ∈ diagram.drawing ∧ node = edgePath e.edge points) ∧
      ∃ m ∈ usedMarkers diagram, entry.2 = m.reference := by
  have hpath := mem_drawnPaths font background diagram hnode (List.ne_nil_of_mem hentry)
  obtain ⟨⟨e, points⟩, hedge, rfl⟩ := List.mem_map.1 hpath
  rw [mem_drawnEdges_iff] at hedge
  rw [usesIn_edgePath] at hentry
  obtain ⟨⟨name, m⟩, hm, rfl⟩ := List.mem_map.1 hentry
  exact ⟨⟨e, points, hedge, rfl⟩, m,
    (mem_usedMarkers_iff diagram).2 ⟨e, points, name, hedge, hm⟩, rfl⟩

/-- An edge that is not invisible refers to every marker that is used. -/
theorem exists_reference {m : EndMarker} (hm : m ∈ usedMarkers diagram) :
    ∃ e points name, .edge e points ∈ diagram.drawing ∧ e.edge.stroke ≠ .invisible ∧
      (name, m.reference) ∈ usesIn (edgePath e.edge points).attributes := by
  obtain ⟨e, points, name, hedge, hentry⟩ := (mem_usedMarkers_iff diagram).1 hm
  refine ⟨e, points, name, hedge, mem_ofEdge hentry, ?_⟩
  rw [usesIn_edgePath]
  exact List.mem_map.2 ⟨(name, m), hentry, rfl⟩

/-- Nothing refers to a marker exactly if none is used. -/
theorem usedMarkers_eq_nil_iff : usedMarkers diagram = [] ↔
    ∀ node ∈ (ofDiagram font background diagram).nodes, usesIn node.attributes = [] := by
  constructor
  · intro hempty node hnode
    by_contra huses
    obtain ⟨entry, hentry⟩ := List.exists_mem_of_ne_nil _ huses
    obtain ⟨-, m, hm, -⟩ := exists_usedMarker font background diagram hnode hentry
    rw [hempty] at hm
    cases hm
  · intro hnothing
    by_contra hne
    obtain ⟨m, hm⟩ := List.exists_mem_of_ne_nil _ hne
    obtain ⟨e, points, name, hedge, -, huse⟩ := exists_reference diagram hm
    rw [hnothing _ (edgePath_mem_nodes font background diagram hedge)] at huse
    cases huse

/-- The markers in a picture are those in its definitions. What refers to a marker is the path of an
edge, and the marker is defined once; every marker that is defined is one that an edge which is not
invisible refers to; and there are no definitions exactly if nothing refers to a marker. The paths of
all edges that are drawn are in the picture, and each refers to the markers of its edge. -/
theorem markers_ofDiagram :
    (ofDiagram font background diagram).named "marker" =
      (ofDiagram font background diagram).defined ∧
    (∀ node ∈ (ofDiagram font background diagram).nodes, ∀ entry ∈ usesIn node.attributes,
      (∃ e points, .edge e points ∈ diagram.drawing ∧ node = edgePath e.edge points) ∧
        ∃ m : EndMarker, entry.2 = m.reference ∧
          (definedNames (ofDiagram font background diagram)).count m.id = 1) ∧
    (∀ id ∈ definedNames (ofDiagram font background diagram), ∃ m : EndMarker, m.id = id ∧
      ∃ e points name, .edge e points ∈ diagram.drawing ∧ e.edge.stroke ≠ .invisible ∧
        (name, m.reference) ∈ usesIn (edgePath e.edge points).attributes) ∧
    ((ofDiagram font background diagram).named "defs" = [] ↔
      ∀ node ∈ (ofDiagram font background diagram).nodes, usesIn node.attributes = []) ∧
    ∀ e points, .edge e points ∈ diagram.drawing →
      edgePath e.edge points ∈ (ofDiagram font background diagram).nodes ∧
        usesIn (edgePath e.edge points).attributes =
          (EndMarker.ofEdge e.edge).map fun (name, m) ↦ (name, m.reference) := by
  have hnodup : (usedMarkers diagram).Nodup := nodup_eraseDups _
  have hnone : definitions (usedMarkers diagram) = [] ↔ usedMarkers diagram = [] := by
    simp [definitions]
  rw [definedNames_ofDiagram, named_marker_ofDiagram, defined_ofDiagram, named_defs_ofDiagram]
  refine ⟨rfl, fun node hnode entry hentry ↦ ?_, List.forall_mem_map.2 fun m hm ↦ ?_, ?_,
    fun e points hedge ↦ ?_⟩
  · obtain ⟨hpath, m, hm, hreference⟩ := exists_usedMarker font background diagram hnode hentry
    refine ⟨hpath, m, hreference, ?_⟩
    exact List.count_eq_one_of_mem (hnodup.map EndMarker.id_injective) (List.mem_map_of_mem hm)
  · exact ⟨m, rfl, exists_reference diagram hm⟩
  · rw [hnone]
    exact usedMarkers_eq_nil_iff font background diagram
  · exact ⟨edgePath_mem_nodes font background diagram hedge, usesIn_edgePath _ _⟩

end

end BlockDiagram.Svg
