import BlockDiagram.Proofs.Document.Invariants

/-!
# Numbers of edges

Edges are numbered from one on between their ends (`IsNumbered`). A number ends at the first dash of a
name, so it can be told from the ends, and no two edges have the same name
(`IsNumbered.nodup_ids`). Counting how often ends have been connected is enough for that, since an
edge is counted under the text of its ends that is part of its name.
-/

namespace BlockDiagram

/-- The name of an edge without its number. -/
def Edge.base (e : Edge) : String :=
  s!"{e.start}-{e.target}"

/-- The text for the ends of an edge has their names with a dash between them. -/
theorem Edge.toList_base (e : Edge) :
    e.base.toList = e.start.toList ++ '-' :: e.target.toList := by
  simp [base, toString]

/-- The edges with the given text for their ends. -/
def edgesOn (base : String) (edges : List Edge) : List Edge :=
  edges.filter fun e ↦ e.base = base

private theorem mem_edgesOn_iff {base : String} {edges : List Edge} {e : Edge} :
    e ∈ edgesOn base edges ↔ e ∈ edges ∧ e.base = base := by
  simp only [edgesOn, List.mem_filter, decide_eq_true_eq]

private theorem edgesOn_append_singleton (base : String) (edges : List Edge) (e : Edge) :
    edgesOn base (edges ++ [e]) =
      if e.base = base then edgesOn base edges ++ [e] else edgesOn base edges := by
  rw [edgesOn, List.filter_append, List.filter_cons, List.filter_nil]
  simp only [decide_eq_true_eq]
  split
  · rfl
  · exact List.append_nil _

/-- Holds when the edges between any two ends are named by their numbers, in order. -/
def IsNumbered (edges : List Edge) : Prop :=
  ∀ base, (edgesOn base edges).map Edge.id =
    (List.range' 1 (edgesOn base edges).length).map fun n ↦ Builder.edgeId n base

namespace Builder

/-- The name of an edge is its number, a dash and the text for its ends. -/
theorem toList_edgeId (n : Nat) (base : String) :
    (edgeId n base).toList = Nat.toDigits 10 n ++ '-' :: base.toList := by
  simp [edgeId, toString, Nat.toList_repr]

/-- What comes in front of the first dash of the name of an edge is its number. -/
theorem takeWhile_edgeId (n : Nat) (base : String) :
    (edgeId n base).toList.takeWhile (· != '-') = Nat.toDigits 10 n := by
  rw [toList_edgeId, List.takeWhile_append_of_pos fun c hc ↦ bne_dash_of_mem_toDigits hc,
    List.takeWhile_cons_of_neg (by decide), List.append_nil]

/-- The name of an edge says its number, and what it has been numbered among. -/
theorem eq_of_edgeId_eq {n n' : Nat} {base base' : String} (h : edgeId n base = edgeId n' base') :
    n = n' ∧ base = base' := by
  have hdigits : Nat.toDigits 10 n = Nat.toDigits 10 n' := by
    rw [← takeWhile_edgeId n base, h, takeWhile_edgeId]
  have hchars := congrArg String.toList h
  rw [toList_edgeId, toList_edgeId, hdigits] at hchars
  have hbase := (List.cons.inj (List.append_cancel_left hchars)).2
  exact ⟨toDigits_injective hdigits, String.toList_injective hbase⟩

end Builder

/-! ### Numbered edges -/

namespace IsNumbered

variable {edges : List Edge}

private theorem nil : IsNumbered [] :=
  fun _ ↦ rfl

/-- The next edge between its ends gets the next number. -/
theorem append_singleton (h : IsNumbered edges) {e : Edge}
    (hid : e.id = Builder.edgeId ((edgesOn e.base edges).length + 1) e.base) :
    IsNumbered (edges ++ [e]) := by
  intro base
  rw [edgesOn_append_singleton]
  split
  · next heq =>
    subst heq
    rw [List.map_append, List.length_append, h, List.length_singleton, List.range'_concat,
      List.map_append, List.map_singleton, List.map_singleton, hid, Nat.one_mul, Nat.add_comm 1]
  · exact h base

/-- An edge is named by a number. -/
theorem exists_edgeId (h : IsNumbered edges) : ∀ e ∈ edges, ∃ n, e.id = Builder.edgeId n e.base := by
  intro e he
  have hmem : e.id ∈ (edgesOn e.base edges).map Edge.id :=
    List.mem_map_of_mem (mem_edgesOn_iff.2 ⟨he, rfl⟩)
  rw [h, List.mem_map] at hmem
  obtain ⟨n, -, hn⟩ := hmem
  exact ⟨n, hn.symm⟩

private theorem nodup_ids_edgesOn (h : IsNumbered edges) (base : String) :
    ((edgesOn base edges).map Edge.id).Nodup := by
  rw [h]
  exact List.Nodup.map (fun _ _ hnames ↦ (Builder.eq_of_edgeId_eq hnames).1) List.nodup_range'

/-- No two edges have the same name: they would have the same ends, and be numbered among those. -/
theorem nodup_ids (h : IsNumbered edges) : (edges.map Edge.id).Nodup := by
  rw [List.nodup_iff_count_le_one]
  intro id
  by_cases hid : id ∈ edges.map Edge.id
  · obtain ⟨e, he, rfl⟩ := List.mem_map.1 hid
    obtain ⟨n, hn⟩ := h.exists_edgeId e he
    have hsame : ∀ e' ∈ edges, e'.id = e.id → e'.base = e.base := by
      intro e' he' heq
      obtain ⟨n', hn'⟩ := h.exists_edgeId e' he'
      exact (Builder.eq_of_edgeId_eq (hn'.symm.trans (heq.trans hn))).2
    have hcount : (edges.map Edge.id).count e.id =
        ((edgesOn e.base edges).map Edge.id).count e.id := by
      rw [List.count_eq_countP, List.count_eq_countP, List.countP_map, List.countP_map, edgesOn,
        List.countP_filter]
      refine List.countP_congr fun e' he' ↦ ?_
      simp only [Function.comp_apply, beq_iff_eq, Bool.and_eq_true, decide_eq_true_eq]
      constructor
      · exact fun heq ↦ ⟨heq, hsame e' he' heq⟩
      · exact And.left
    rw [hcount]
    exact List.nodup_iff_count_le_one.1 (h.nodup_ids_edgesOn e.base) e.id
  · rw [List.count_eq_zero.2 hid]
    exact Nat.zero_le 1

end IsNumbered

/-! ### Building -/

namespace Builder

/-- Holds when the edges are numbered, and it is known how many there are between any two ends. -/
structure Counts (b : Builder) : Prop where
  numbered : IsNumbered b.document.edges.toList
  connections : ∀ base, (b.connections[base]?).getD 0 =
    (edgesOn base b.document.edges.toList).length

private theorem dependsOnEdges_counts : DependsOnEdges Counts := by
  intro b b' hedges hconnections h
  constructor
  · rw [hedges]
    exact h.numbered
  · rw [hedges, hconnections]
    exact h.connections

private theorem counts_start : Counts start where
  numbered := .nil
  connections _ := by simp [start, Document.empty, edgesOn]

/-- One more edge is counted among those with the same ends. -/
theorem Counts.push {b : Builder} (h : Counts b) {e : Edge}
    (hid : e.id = edgeId ((b.connections[e.base]?).getD 0 + 1) e.base) :
    Counts { b with
      connections := b.connections.insert e.base ((b.connections[e.base]?).getD 0 + 1)
      document := b.document.pushEdge e } := by
  constructor
  · dsimp only [Document.pushEdge]
    rw [Array.toList_push]
    refine h.numbered.append_singleton ?_
    rw [hid, h.connections]
  · intro base
    dsimp only [Document.pushEdge]
    rw [Array.toList_push, edgesOn_append_singleton, Std.ExtTreeMap.getElem?_insert]
    simp only [Std.LawfulEqCmp.compare_eq_iff_eq]
    by_cases hbase : e.base = base
    · subst hbase
      rw [if_pos rfl, if_pos rfl, Option.getD_some, List.length_append, h.connections,
        List.length_singleton]
    · rw [if_neg hbase, if_neg hbase]
      exact h.connections base

private theorem respects_connect {E : Fault → Prop} (e : EdgeDecl) :
    Respects Counts E (connect e) :=
  respects_modify fun _ hb ↦ hb.push rfl

/-- The edges of a document are numbered. -/
theorem isNumbered_of_build {limit : Nat} {ss : List (Source.Located Statement)} {d : Document}
    (h : build limit ss = .ok d) : IsNumbered d.edges.toList := by
  obtain ⟨b, hb, hedges⟩ :=
    exists_builder_of_build dependsOnEdges_counts counts_start (fun e _ ↦ respects_connect e) h
  rw [hedges]
  exact hb.numbered

end Builder

end BlockDiagram
