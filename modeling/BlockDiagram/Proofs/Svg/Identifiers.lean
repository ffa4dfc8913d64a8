import BlockDiagram.Proofs.Diagram
import BlockDiagram.Proofs.Document.Connecting
import BlockDiagram.Proofs.Parser.Names
import BlockDiagram.Svg

/-!
# Names in pictures

The elements of a picture that have an `id` are the definitions of markers, the groups of blocks and
the paths of edges (`ids_ofDiagram`). Blocks, edges and markers are named in different ways. Only a
composite without a name, and its spacers, may have a name with more than one dash that is not the
name of an edge or of a marker, and then it starts with a letter of its own (`IsOfBlock`). So no name
is given twice (`Diagram.IsNamed`).
-/

namespace BlockDiagram

open Source (Located)

namespace Svg

/-! ### Elements with names -/

/-- The names that attributes give to an element. -/
def idsIn (attributes : List (String × String)) : List String :=
  (attributes.filter fun entry ↦ entry.1 = "id").map Prod.snd

@[simp] private theorem idsIn_nil : idsIn [] = [] := rfl

/-- Of an attribute the value counts if the attribute is an id. -/
@[simp] theorem idsIn_cons (entry : String × String) (attributes : List (String × String)) :
    idsIn (entry :: attributes) =
      if entry.1 = "id" then entry.2 :: idsIn attributes else idsIn attributes := by
  simp only [idsIn, List.filter_cons, decide_eq_true_eq]
  split <;> rfl

@[simp] private theorem idsIn_append (front back : List (String × String)) :
    idsIn (front ++ back) = idsIn front ++ idsIn back := by
  rw [idsIn, List.filter_append, List.map_append]
  rfl

namespace Node

mutual

/-- The names of the elements in a tree, from the top. -/
def ids : Node → List String
  | text _ => []
  | element _ attributes children => idsIn attributes ++ idsOfAll children

/-- The names of the elements in several trees. -/
def idsOfAll : List Node → List String
  | [] => []
  | node :: nodes => node.ids ++ idsOfAll nodes

end

private theorem idsOfAll_eq_flatMap (nodes : List Node) : idsOfAll nodes = nodes.flatMap ids := by
  induction nodes with
  | nil => rfl
  | cons node nodes ih => rw [idsOfAll, ih, List.flatMap_cons]

@[simp] private theorem ids_text (content : String) : (text content).ids = [] := rfl

@[simp] private theorem ids_element (name : String) (attributes : List (String × String))
    (children : List Node) :
    (element name attributes children).ids = idsIn attributes ++ children.flatMap ids := by
  rw [ids, idsOfAll_eq_flatMap]

end Node

open Node (ids)

/-! ### Blocks -/

@[simp] private theorem idsIn_styleOf (declarations : List String) :
    idsIn (styleOf declarations) = [] := by
  rw [styleOf]
  split
  · rfl
  · simp

/-- Figures have no names of their own. -/
@[simp] theorem ids_figure (b : PlacedBlock Float32) (f : Figure Float32) : (figure b f).ids = [] := by
  cases f with
  | outline shape =>
    rw [figure]
    split
    · simp [polygon]
    · simp [rectangle]
  | _ => simp [figure, rectangle, circle, bar]

/-- The group of a block has its name. -/
@[simp] theorem ids_blockGroup (classes : OrderedMap StyleClass) (b : PlacedBlock Float32)
    (f : Figure Float32) : (blockGroup classes b f).ids = [b.block.id] := by
  simp [blockGroup]

/-- Labels have no names. -/
theorem ids_label {font : Font} {content : String} {center : Point Float32}
    {more : List (String × String)} (h : idsIn more = []) :
    (label font content center more).ids = [] := by
  rw [label, Node.ids_element, idsIn_append, h, List.append_nil, List.flatMap_cons, Node.ids_text,
    List.nil_append, List.flatMap_map]
  simp [labelLine]

@[simp] private theorem ids_blockLabel (font : Font) (classes : OrderedMap StyleClass)
    (b : PlacedBlock Float32) (f : Figure Float32) :
    (blockLabel font classes b f).flatMap ids = [] := by
  rw [blockLabel]
  split
  · rfl
  · rw [List.flatMap_singleton, ids_label (idsIn_styleOf _)]

/-! ### Edges and markers -/

@[simp] private theorem idsIn_strokeAttributes (stroke : Stroke) :
    idsIn (strokeAttributes stroke) = [] := by
  cases stroke <;> simp [strokeAttributes]

/-- An edge does not get its name from a marker. -/
@[simp] theorem idsIn_references (e : Edge) :
    idsIn ((EndMarker.ofEdge e).map fun entry ↦ (entry.1, entry.2.reference)) = [] := by
  rw [EndMarker.ofEdge]
  split
  · rfl
  · simp only [List.filter_cons, List.filter_nil]
    split <;> split <;> simp

/-- The path of an edge has its name. -/
@[simp] theorem ids_edgePath (e : Edge) (points : List (Point Float32)) :
    (edgePath e points).ids = [e.id] := by
  simp [edgePath]

@[simp] private theorem ids_edgeLabel (font : Font) (e : Edge) (points : List (Point Float32)) :
    (edgeLabel font e points).flatMap ids = [] := by
  rw [edgeLabel]
  split
  · rw [List.flatMap_singleton, ids_label idsIn_nil]
  · rfl

namespace EndMarker

/-- The definition of a marker has its name. -/
@[simp] theorem ids_definition (m : EndMarker) : m.definition.ids = [m.id] := by
  have hpicture : m.picture.flatMap ids = [] := by
    rw [picture]
    split <;> simp
  rw [definition, Node.ids_element, hpicture]
  simp

/-- Different markers have different ids. -/
theorem id_injective : Function.Injective id := by
  rintro ⟨marker, start⟩ ⟨marker', start'⟩ h
  cases marker <;> cases marker' <;> cases start <;> cases start' <;>
    first | rfl | exact absurd h (by decide)

end EndMarker

@[simp] private theorem ids_definitions (markers : List EndMarker) :
    (definitions markers).flatMap ids = markers.map EndMarker.id := by
  rw [definitions]
  split
  · next hempty =>
    rw [List.isEmpty_iff.1 hempty]
    rfl
  · rw [List.flatMap_singleton, Node.ids_element, idsIn_nil, List.nil_append, List.flatMap_map]
    simp only [EndMarker.ids_definition, List.map_eq_flatMap]

/-! ### Pictures -/

/-- The markers of edges, each once. -/
def markersOf (edges : List Edge) : List EndMarker :=
  (edges.flatMap fun e ↦ (EndMarker.ofEdge e).map Prod.snd).eraseDups

@[simp] private theorem ids_accessibleText (title description : Option String) :
    (accessibleText title description).flatMap ids = [] := by
  cases title <;> cases description <;> simp [accessibleText]

@[simp] private theorem ids_backgroundBox (size : Size Float32) (background : Option Color) :
    (background.map (backgroundBox size)).toList.flatMap ids = [] := by
  cases background <;> simp [backgroundBox]

private theorem flatMap_nothing {β γ : Type} (xs : List β) :
    xs.flatMap (fun _ ↦ ([] : List γ)) = [] :=
  List.flatMap_eq_nil_iff.2 fun _ _ ↦ rfl

section

variable (font : Font) {diagram : Diagram Float32}
  (h : diagram.drawing.map DrawStep.subject = diagram.visible.map .inl ++ diagram.edges.map .inr)

include h

/-- What is made of the steps of a drawing is made of the blocks first, and then of the edges. -/
theorem flatMap_partsOf {β : Type} {f : Parts → List β} {ofBlock : PlacedBlock Float32 → List β}
    {ofEdge : RoutedEdge Float32 → List β}
    (hblock : ∀ b figure, f (partsOf font diagram.classes (.block b figure)) = ofBlock b)
    (hedge : ∀ e points, f (partsOf font diagram.classes (.edge e points)) = ofEdge e) :
    (diagram.drawing.map (partsOf font diagram.classes)).flatMap f =
      diagram.visible.flatMap ofBlock ++ diagram.edges.flatMap ofEdge := by
  have hsteps : (diagram.drawing.map (partsOf font diagram.classes)).flatMap f =
      (diagram.drawing.map DrawStep.subject).flatMap (Sum.elim ofBlock ofEdge) := by
    rw [List.flatMap_map, List.flatMap_map]
    congr 1
    funext step
    cases step with
    | block b figure => exact hblock b figure
    | edge e points => exact hedge e points
  rw [hsteps, h, List.flatMap_append, List.flatMap_map, List.flatMap_map]
  rfl

/-- The names in the picture of a diagram that is drawn with nothing left out. -/
theorem ids_ofDiagram (background : Option Color) :
    (ofDiagram font background diagram).ids =
      (markersOf (diagram.edges.map RoutedEdge.edge)).map EndMarker.id ++
        ((diagram.visible.map fun b ↦ b.block.id) ++ diagram.edges.map fun e ↦ e.edge.id) := by
  have hmarkers := flatMap_partsOf font (f := Parts.markers) h (fun _ _ ↦ rfl) fun _ _ ↦ rfl
  have hfigures := flatMap_partsOf font (f := fun parts ↦ parts.figures.flatMap ids) h
    (fun b figure ↦ (List.flatMap_singleton ids _).trans (ids_blockGroup _ b figure))
    fun _ _ ↦ rfl
  have hpaths := flatMap_partsOf font (f := fun parts ↦ parts.paths.flatMap ids) h
    (fun _ _ ↦ rfl) fun e points ↦
      (List.flatMap_singleton ids _).trans (ids_edgePath e.edge points)
  have hlabels := flatMap_partsOf font (f := fun parts ↦ parts.labels.flatMap ids) h
    (fun b figure ↦ ids_blockLabel font diagram.classes b figure)
    fun e points ↦ ids_edgeLabel font e.edge points
  simp only [flatMap_nothing, ← List.map_eq_flatMap, List.append_nil, List.nil_append]
    at hmarkers hfigures hpaths hlabels
  rw [ofDiagram]
  simp only [Node.ids_element, List.flatMap_append, ids_accessibleText, ids_backgroundBox,
    ids_definitions, List.flatMap_singleton, List.flatMap_assoc, hmarkers, hfigures, hpaths,
    hlabels, List.append_nil, List.nil_append]
  simp [markersOf, List.flatMap_map]

end

end Svg

/-! ### Names of blocks -/

/-- Holds for names with one dash at most, and for those that start as the names of composites
without one do. -/
def BlockId.IsOfBlock (id : BlockId) : Prop :=
  id.toList.count '-' ≤ 1 ∨ id.toList.head? = some 'b'

private theorem count_dash_toDigits (n : Nat) : (Nat.toDigits 10 n).count '-' = 0 :=
  List.count_eq_zero.2 (Builder.dash_not_mem_toDigits n)

/-- Spacers have one dash more than the composite around them. -/
theorem BlockId.isOfBlock_numbered {id : BlockId}
    (h : '-' ∉ id.toList ∨ id.toList.head? = some 'b') (n : Nat) : (id.numbered n).IsOfBlock := by
  rw [IsOfBlock, Builder.toList_numbered]
  refine h.imp (fun hdash ↦ ?_) fun hfirst ↦ ?_
  · rw [List.count_append, List.count_cons_self, List.count_eq_zero.2 hdash, count_dash_toDigits]
  · rw [List.head?_append, hfirst]
    rfl

/-- All that a source mentions is named as a block. -/
theorem isOfBlock_of_mentions {source : String} {ss : List (Located Statement)}
    {mentions : List Mention} (hss : statements source = .ok ss)
    (h : Mentions [BlockId.root] BlockId.root ss mentions) :
    ∀ id ∈ idsOf mentions, BlockId.IsOfBlock id := by
  obtain ⟨tokens, -, haccounts, hwritten⟩ := exists_names_of_statements hss
  have hname : ∀ id ∈ namesIn ss, '-' ∉ id.toList ∨ id.toList.head? = some 'b' := by
    intro id hid
    rcases haccounts.mem_or_mem hid with hmem | hmem
    · exact .inl (hwritten id hmem).2
    · obtain ⟨n, -, rfl⟩ := List.mem_map.1 hmem
      rw [Grammar.toList_anonymousId]
      exact .inr rfl
  intro id hid
  rcases h.mem_or_numbered id hid with hdeclared | ⟨composite, n, hcomposite, rfl⟩
  · refine (hname id hdeclared).imp_left fun hdash ↦ ?_
    rw [List.count_eq_zero.2 hdash]
    exact Nat.zero_le 1
  · refine BlockId.isOfBlock_numbered ?_ n
    rcases hcomposite with rfl | hdeclared
    · exact .inl (by decide)
    · exact hname composite hdeclared

/-! ### Names of edges and markers -/

/-- The name of an edge has a dash behind its number and one between its ends, and a digit in
front. -/
theorem IsNumbered.not_isOfBlock {edges : List Edge} (h : IsNumbered edges) :
    ∀ e ∈ edges, ¬ BlockId.IsOfBlock e.id ∧ e.id.toList.head? ≠ some 't' := by
  intro e he
  obtain ⟨n, hn⟩ := h.exists_edgeId e he
  obtain ⟨digit, digits, hdigits⟩ := List.exists_cons_of_ne_nil (@Nat.toDigits_ne_nil n 10)
  have hdigit : digit.isDigit = true := by
    have hmem : digit ∈ Nat.toDigits 10 n := hdigits ▸ List.mem_cons_self
    exact Nat.isDigit_of_mem_toDigits (by decide) (by decide) hmem
  have hfirst : e.id.toList.head? = some digit := by
    rw [hn, Builder.toList_edgeId, hdigits]
    rfl
  have hcount : 2 ≤ e.id.toList.count '-' := by
    rw [hn, Builder.toList_edgeId, Edge.toList_base, List.count_append, List.count_cons_self,
      List.count_append, List.count_cons_self]
    omega
  rw [BlockId.IsOfBlock, hfirst]
  refine ⟨?_, ?_⟩
  · rintro (hle | heq)
    · omega
    · cases heq
      cases hdigit
  · rintro heq
    cases heq
    cases hdigit

/-- The name of a marker has two dashes, and starts neither as the name of an edge nor as that of a
composite without one. -/
theorem Svg.EndMarker.not_isOfBlock (m : EndMarker) :
    ¬ BlockId.IsOfBlock m.id ∧ m.id.toList.head? = some 't' := by
  obtain ⟨marker, start⟩ := m
  simp only [BlockId.IsOfBlock]
  cases marker <;> cases start <;> decide

/-! ### Sources -/

/-- Nothing is left twice when duplicates are erased. -/
theorem nodup_eraseDups {α : Type} [BEq α] [LawfulBEq α] :
    ∀ xs : List α, xs.eraseDups.Nodup
  | [] => by simp
  | x :: xs => by
    rw [List.eraseDups_cons, List.nodup_cons, List.mem_eraseDups]
    exact ⟨by simp, nodup_eraseDups _⟩
termination_by xs => xs.length
decreasing_by exact Nat.lt_succ_of_le (List.length_filter_le _ _)

namespace Document

/-- The names of what is drawn of a document: of markers, of blocks and of edges. -/
def drawnNames (d : Document) : List String :=
  (Svg.markersOf d.edges.toList).map Svg.EndMarker.id ++
    ((d.walk.filter fun b ↦ !b.isSpace).map Block.id ++ d.edges.toList.map Edge.id)

private theorem nodup_drawnNames {d : Document} (hnodup : (d.walk.map Block.id).Nodup)
    (hblocks : ∀ id ∈ d.walk.map Block.id, BlockId.IsOfBlock id)
    (hedges : IsNumbered d.edges.toList) : d.drawnNames.Nodup := by
  have hdrawn := (List.filter_sublist (p := fun b ↦ !b.isSpace) (l := d.walk)).map Block.id
  rw [drawnNames, List.nodup_append', List.nodup_append', List.disjoint_append_right]
  refine ⟨(nodup_eraseDups _).map Svg.EndMarker.id_injective,
    ⟨hnodup.sublist hdrawn, hedges.nodup_ids, ?_⟩, ?_, ?_⟩
  · -- no edge is named as a block is
    intro id hblock hedge
    obtain ⟨e, he, rfl⟩ := List.mem_map.1 hedge
    exact (hedges.not_isOfBlock e he).1 (hblocks _ (hdrawn.subset hblock))
  · -- no marker is named as a block is
    intro id hmarker hblock
    obtain ⟨m, -, rfl⟩ := List.mem_map.1 hmarker
    exact m.not_isOfBlock.1 (hblocks _ (hdrawn.subset hblock))
  · -- no edge starts as a marker does
    intro id hmarker hedge
    obtain ⟨m, -, rfl⟩ := List.mem_map.1 hmarker
    obtain ⟨e, he, heq⟩ := List.mem_map.1 hedge
    exact (hedges.not_isOfBlock e he).2 (heq ▸ m.not_isOfBlock.2)

end Document

/-- Holds for diagrams of a document in whose pictures all that is drawn has its name, nothing else
has one, and no name is given twice. -/
structure Diagram.IsNamed (diagram : Diagram Float32) (d : Document) : Prop where
  ids : ∀ font background, (Svg.ofDiagram font background diagram).ids = d.drawnNames
  nodup : ∀ font background, (Svg.ofDiagram font background diagram).ids.Nodup

namespace Diagram

variable {d : Document} {layout : Layout Float32} {diagram : Diagram Float32}

/-- The pictures of a complete diagram have the names of what is drawn of the document. -/
theorem IsComplete.ids_ofDiagram (h : diagram.IsComplete d layout) (hdrawn : diagram.IsDrawn d)
    (font : Svg.Font) (background : Option Color) :
    (Svg.ofDiagram font background diagram).ids = d.drawnNames := by
  have hvisible : (diagram.visible.map fun b ↦ b.block.id) =
      (d.walk.filter fun b ↦ !b.isSpace).map Block.id := by
    rw [← h.map_block, List.filter_map, List.map_map]
    rfl
  have hedges : (diagram.edges.map fun e ↦ e.edge.id) = d.edges.toList.map Edge.id := by
    rw [← h.map_edge, List.map_map]
    rfl
  rw [Svg.ids_ofDiagram font hdrawn.subjects, h.map_edge, hvisible, hedges, Document.drawnNames]

/-- Every layout of a source that does not declare the root has a diagram whose pictures give no name
twice. -/
theorem isNamed_of_parse {limit : Nat} {source : String} {ss : List (Located Statement)}
    (hss : statements source = .ok ss) (hd : Document.parse limit source = .ok d)
    (hroot : BlockId.root ∉ namesIn ss) :
    (∀ (padding : Float32) (labels : Layout.Sizes Float32) (layout : Layout Float32),
      Layout.arrange d padding labels = .ok layout →
        ∃ diagram, resolve d layout = .ok diagram ∧ diagram.IsNamed d) ∧
    ∀ (settings : Layout.Settings Float32) (measure : String → Size Float32)
      (layout : Layout Float32), Layout.compute settings measure d = .ok layout →
        ∃ diagram, resolve d layout = .ok diagram ∧ diagram.IsNamed d := by
  obtain ⟨mentions, h⟩ := Document.describes_of_parse hss hd hroot
  have hnodup : d.drawnNames.Nodup := by
    refine Document.nodup_drawnNames (h.listed.map_id_walk h.sound).1 (fun id hid ↦ ?_)
      (Builder.isNumbered_of_build (Document.build_of_parse hss hd))
    exact isOfBlock_of_mentions hss h.mentioned id (h.mem_walk_iff.1 hid)
  have harranged : ∀ {padding : Float32} {labels : Layout.Sizes Float32}
      {layout : Layout Float32}, Layout.arrange d padding labels = .ok layout →
        ∃ diagram, resolve d layout = .ok diagram ∧ diagram.IsNamed d := by
    intro padding labels layout harrange
    obtain ⟨diagram, hdiagram, hcomplete, hdrawn⟩ :=
      exists_isDrawn_of_arrange (wellFormed_of_statements hss) h harrange
    have hids := hcomplete.ids_ofDiagram hdrawn
    refine ⟨diagram, hdiagram, hids, fun font background ↦ ?_⟩
    rw [hids]
    exact hnodup
  exact ⟨fun _ _ _ ↦ harranged, fun _ _ _ hcompute ↦
    harranged (Layout.arrange_of_compute hcompute).2⟩

end Diagram

/-! ### A source with two edges between the same blocks -/

namespace Document

/-- A source that connects two blocks twice, behind a spacer. -/
def connectedTwice : String :=
  "block-beta space a --> b a --> b"

/-- The rules that derive it. -/
def connectedTwiceRules : List Grammar.Production :=
  let edge := [.documentMore, .nodes, .chainLink, .chainStart, .unsizedNode, .bareNode, .plainLink,
    .unsizedNode, .bareNode]
  [.start, .documentMore, .space] ++ edge ++ edge ++ [.documentEnd]

private theorem exists_connectedTwice : ∃ ss d, statements connectedTwice = .ok ss ∧
    parse 9 connectedTwice = .ok d ∧ BlockId.root ∉ namesIn ss ∧ d.size = 4 ∧
      (∀ id b, d.block? id = some b → b.columns ≠ 0) ∧
      d.drawnNames = ["tessera-point-end", "a", "b", "1-a-b", "2-a-b"] := by
  have hdecide : ((statementsAlong connectedTwiceRules connectedTwice).bind fun ss ↦
      (Builder.build 9 ss).toOption.map fun d ↦
        (decide (BlockId.root ∉ namesIn ss), d.size, d.drawnNames,
          d.blocks.keys.toList.all fun id ↦ (d.block? id).all fun b ↦ b.columns ≠ 0)) =
        some (true, 4, ["tessera-point-end", "a", "b", "1-a-b", "2-a-b"], true) := by
    decide +kernel
  obtain ⟨ss, d, hss, -, hd, hresult⟩ := parse_of_along hdecide
  simp only [Prod.mk.injEq, decide_eq_true_eq] at hresult
  obtain ⟨hroot, hsize, hnames, hcolumns⟩ := hresult
  exact ⟨ss, d, hss, hd, hroot, hsize,
    fun _ _ hb ↦ of_decide_eq_true (forall_of_all_keys hcolumns hb), hnames⟩

/-- The two edges are told apart by their numbers. -/
theorem exists_ids_connectedTwice : ∃ (d : Document) (layout : Layout Float32)
    (diagram : Diagram Float32), parse 9 connectedTwice = .ok d ∧
      Layout.arrange d 8 .empty = .ok layout ∧ Diagram.resolve d layout = .ok diagram ∧
      (Svg.ofDiagram ⟨"serif", 12⟩ none diagram).ids =
        ["tessera-point-end", "a", "b", "1-a-b", "2-a-b"] := by
  obtain ⟨ss, d, hss, hd, hroot, hsize, hcolumns, hnames⟩ := exists_connectedTwice
  obtain ⟨mentions, h⟩ := describes_of_parse hss hd hroot
  obtain ⟨layout, hlayout⟩ :=
    Layout.exists_arrange h.sound h.listed hcolumns (by rw [hsize]; decide) (8 : Float32) .empty
  obtain ⟨diagram, hdiagram, hnamed⟩ :=
    (Diagram.isNamed_of_parse hss hd hroot).1 8 .empty layout hlayout
  exact ⟨d, layout, diagram, hd, hlayout, hdiagram, (hnamed.ids _ _).trans hnames⟩

end Document

end BlockDiagram
