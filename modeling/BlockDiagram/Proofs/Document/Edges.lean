import BlockDiagram.Proofs.Document.Carrying
import BlockDiagram.Proofs.Document.Connecting

/-!
# Edges of a document

A document has one edge for every edge statement, however deep that is nested, in the order in which
the statements are carried out (`Carries.adds`). With their numbers known this says what all edges
are (`edges_of_build`).
-/

namespace BlockDiagram

open Source (Located)

/-- The edge that is added for a declaration, under some name. -/
def EdgeDecl.named (decl : EdgeDecl) (id : BlockId) : Edge where
  id := id
  start := decl.start
  target := decl.target
  label := decl.link.label.map Label.text
  startMarker := decl.link.startMarker
  endMarker := decl.link.endMarker
  stroke := decl.link.stroke
  directions := decl.directions

/-- Holds for the edges that are added for a declaration. -/
def EdgeDecl.Makes (decl : EdgeDecl) (e : Edge) : Prop :=
  e = decl.named e.id

/-- Where edges are added for declarations, each of them is for one. -/
theorem exists_makes_of_mem {decls : List EdgeDecl} {edges : List Edge}
    (h : List.Forall₂ EdgeDecl.Makes decls edges) {e : Edge} (he : e ∈ edges) :
    ∃ decl ∈ decls, decl.Makes e := by
  induction h with
  | nil => cases he
  | @cons decl _ _ _ hfirst _ ih =>
    rcases List.mem_cons.1 he with rfl | he
    · exact ⟨decl, List.mem_cons_self, hfirst⟩
    · obtain ⟨decl', hdecl', hmake⟩ := ih he
      exact ⟨decl', List.mem_cons_of_mem decl hdecl', hmake⟩

/-- Edges with the same text for their ends are named by how many of them there are so far. -/
theorem IsNumbered.id_eq {edges : List Edge} (h : IsNumbered edges) {base : String} {k : Nat}
    {e : Edge} (he : (edgesOn base edges)[k]? = some e) : e.id = Builder.edgeId (k + 1) base := by
  have hk : k < (edgesOn base edges).length := (List.getElem?_eq_some_iff.1 he).1
  have hid := congrArg (·[k]?) (h base)
  simp only [List.getElem?_map, he, Option.map_some, List.getElem?_range' hk] at hid
  rw [Option.some.inj hid]
  congr 1
  omega

namespace Document

variable {d d' d'' : Document} {decls decls' : List EdgeDecl}

/-- Holds when the edges in the end are those in the beginning and, behind them, one for each of the
declarations. -/
def Adds (d : Document) (decls : List EdgeDecl) (d' : Document) : Prop :=
  ∃ added, d'.edges.toList = d.edges.toList ++ added ∧ List.Forall₂ EdgeDecl.Makes decls added

namespace Adds

private theorem of_edges_eq (h : d'.edges = d.edges) : d.Adds [] d' :=
  ⟨[], by rw [h, List.append_nil], .nil⟩

private theorem trans (h : d.Adds decls d') (h' : d'.Adds decls' d'') :
    d.Adds (decls ++ decls') d'' := by
  obtain ⟨added, hedges, hmakes⟩ := h
  obtain ⟨more, hedges', hmakes'⟩ := h'
  exact ⟨added ++ more, by rw [hedges', hedges, List.append_assoc],
    List.rel_append hmakes hmakes'⟩

end Adds

end Document

namespace Builder

variable {limit : Nat} {b b' : Builder}

private theorem adds_connect {decl : EdgeDecl} {u : Unit} (h : (connect decl).run b = .ok (u, b')) :
    b.document.Adds [decl] b'.document := by
  cases h
  exact ⟨[_], Array.toList_push, .cons rfl .nil⟩

/-- A step that keeps whatever does not depend on blocks adds no edges. -/
theorem adds_of_respects {α : Type} {m : Building α} {x : α}
    (hm : ∀ I, IgnoresBlocks I → Respects I (fun _ ↦ True) m) (h : m.run b = .ok (x, b')) :
    b.document.Adds [] b'.document :=
  .of_edges_eq ((hm (fun b₁ ↦ b₁.document.edges = b.document.edges)
    fun _ _ hedges _ _ hb ↦ hedges.trans hb).ok rfl h)

private theorem adds_declare {node : NodeDecl} {span : Source.Span} {u : Unit}
    (h : (declare limit node span).run b = .ok (u, b')) : b.document.Adds [] b'.document :=
  adds_of_respects (fun _ hI ↦ respects_declare hI.tolerates (fun _ _ ↦ trivial) node) h

/-- A statement without a body adds the edge that it is, if it is one. -/
theorem adds_perform {span : Source.Span} {statement : Statement} {composite : BlockId}
    {children children' : List BlockId} (hother : statement.isComposite = false)
    (h : (perform limit composite span children statement).run b = .ok (children', b')) :
    b.document.Adds statement.edges b'.document := by
  have hnone (hedges : statement.edges = []) : b.document.Adds statement.edges b'.document := by
    rw [hedges]
    refine adds_of_respects (fun I hI ↦ respects_perform hI.tolerates ?_ (fun _ _ ↦
      respects_checkNotEnclosing trivial) (fun _ _ ↦ trivial) hother fun count _ ↦
        respects_addSpacers hI composite count children) h
    rw [hedges]
    exact List.forall_mem_nil _
  cases statement with
  | edge decl =>
    rw [perform, run_bind_ok_iff] at h
    obtain ⟨_, _, hconnect, h⟩ := h
    cases h
    exact adds_connect hconnect
  | composite head body => cases hother
  | _ => exact hnone rfl

private theorem accumulates_adds (limit : Nat) :
    Accumulates limit (fun s ↦ s.value.edges) fun decls d d' ↦ d.Adds decls d' where
  refl _ := .of_edges_eq rfl
  trans := .trans
  head := adds_declare
  fill _ _ _ := .of_edges_eq rfl
  step hother _ := adds_perform hother

/-- Statements add their edges. -/
theorem Carries.adds {ss : List (Located Statement)} {composite : BlockId}
    {children children' : List BlockId} (h : Carries limit composite b children ss b' children') :
    b.document.Adds (edgesIn ss) b'.document :=
  h.accumulates (accumulates_adds limit)

/-- The edges of a document are those of its statements, one for one. -/
theorem makes_of_build {ss : List (Located Statement)} {d : Document} (h : build limit ss = .ok d) :
    List.Forall₂ EdgeDecl.Makes (edgesIn ss) d.edges.toList := by
  obtain ⟨b, children, hcarries, rfl⟩ := exists_carries_of_build h
  obtain ⟨added, hedges, hmakes⟩ := hcarries.adds
  have hall : (b.closed children).edges.toList = added := hedges
  rwa [hall]

/-- A document has one edge for every edge statement. Whichever edges have the same text for their
ends are numbered together, whatever these ends are; no two edges have the same name. -/
theorem edges_of_build {ss : List (Located Statement)} {d : Document}
    (h : build limit ss = .ok d) :
    List.Forall₂ EdgeDecl.Makes (edgesIn ss) d.edges.toList ∧
      (∀ base k e, (edgesOn base d.edges.toList)[k]? = some e → e.id = edgeId (k + 1) base) ∧
      (d.edges.toList.map Edge.id).Nodup := by
  have hnumbered := isNumbered_of_build h
  exact ⟨makes_of_build h, fun base k e he ↦ hnumbered.id_eq he, hnumbered.nodup_ids⟩

/-- Links between different nodes, with the same text for the names of both ends. -/
def dashedLinks : List EdgeDecl :=
  [⟨"a-b", "c", ⟨none, .none, .point, .normal⟩, []⟩, ⟨"a", "b-c", ⟨none, .none, .none, .thick⟩, []⟩]

/-- A composite with the first one in it, and the second one behind it. -/
def dashed : List (Located Statement) :=
  let head : NodeDecl := { id := "g", shape := .composite }
  [⟨.composite head [⟨.edge dashedLinks[0], .emptyAt 0⟩], .emptyAt 0⟩,
    ⟨.edge dashedLinks[1], .emptyAt 0⟩]

/-- The edges are numbered one after the other. -/
theorem ids_dashed : ∃ d, build 9 dashed = .ok d ∧
    d.edges.toList.map Edge.id = ["1-a-b-c", "2-a-b-c"] := by
  have hdecide : (build 9 dashed).toOption.isSome = true := by
    decide +kernel
  cases hbuild : build 9 dashed with
  | error fault =>
    rw [hbuild] at hdecide
    cases hdecide
  | ok d =>
    obtain ⟨hmakes, hids, -⟩ := edges_of_build hbuild
    have hlinks : List.Forall₂ EdgeDecl.Makes dashedLinks d.edges.toList := hmakes
    obtain ⟨inner, _, hinner, hbehind, hedges⟩ := List.forall₂_cons_left_iff.1 hlinks
    obtain ⟨outer, _, houter, hnone, rfl⟩ := List.forall₂_cons_left_iff.1 hbehind
    obtain rfl := List.forall₂_nil_left_iff.1 hnone
    have hbase : inner.base = "a-b-c" := by
      rw [hinner]
      rfl
    have hbase' : outer.base = "a-b-c" := by
      rw [houter]
      rfl
    have hall : edgesOn "a-b-c" d.edges.toList = [inner, outer] := by
      rw [hedges]
      simp [edgesOn, hbase, hbase']
    have hfirst : inner.id = edgeId 1 "a-b-c" := hids _ 0 inner (by rw [hall]; rfl)
    have hsecond : outer.id = edgeId 2 "a-b-c" := hids _ 1 outer (by rw [hall]; rfl)
    refine ⟨d, rfl, ?_⟩
    rw [hedges, List.map_cons, List.map_singleton, hfirst, hsecond]
    decide +kernel

end Builder

end BlockDiagram
