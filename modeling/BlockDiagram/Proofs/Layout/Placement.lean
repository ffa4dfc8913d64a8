import BlockDiagram.Layout
import BlockDiagram.Proofs.Layout.Sizing

/-!
# Places of a tree

What the pass that places blocks computes: the children of every composite stand where their cells
put them, one after the other (`Placed`, `places_of_placeInside`), and each composite starts its rows
at its own left side. Blocks that are not in the tree stay where they are.
-/

namespace BlockDiagram.Layout

open Scalar

variable {α : Type} [Scalar α] {d : Document} {padding left : α} {sizes : Sizes α}
  {centers centers₁ centers' : Centers α} {levels bound : Nat} {t : Tree}

/-- Where the children of a composite go, one after the other. -/
def placesFrom (padding left top height : α) (sizes : Sizes α) :
    Cursor α → List (BlockId × Cell) → List (BlockId × Point α)
  | _, [] => []
  | cursor, (child, cell) :: rest =>
    let width := (sizeOf sizes child).width
    let center := nextCenter padding left top height cursor cell width
    (child, center) ::
      placesFrom padding left top height sizes ⟨center.x + width / 2, cell.row⟩ rest

/-- The upper side of a block. -/
def topOf (sizes : Sizes α) (centers : Centers α) (id : BlockId) : α :=
  ((centers.get? id).getD .origin).y - (sizeOf sizes id).height / 2

/-- Holds when the children of a composite stand in its cells, in rows that start at `left`. -/
def Placed (d : Document) (padding : α) (sizes : Sizes α) (centers : Centers α) (id : BlockId)
    (left : α) : Prop :=
  ∃ grid, gridOf d id = .ok grid ∧
    ∀ place ∈ placesFrom padding left (topOf sizes centers id)
        (rowHeight d sizes (d.children id)) sizes ⟨left, 0⟩ ((d.children id).zip grid.cells),
      centers.get? place.1 = some place.2

private theorem map_fst_placesFrom (padding left top height : α) (cursor : Cursor α)
    (cells : List (BlockId × Cell)) :
    (placesFrom padding left top height sizes cursor cells).map Prod.fst = cells.map Prod.fst := by
  induction cells generalizing cursor with
  | nil => rfl
  | cons entry cells ih => rw [placesFrom, List.map_cons, List.map_cons, ih]

private theorem Placed.congr {id : BlockId} (h : Placed d padding sizes centers id left)
    (hid : centers'.get? id = centers.get? id)
    (hchildren : ∀ child ∈ d.children id, centers'.get? child = centers.get? child) :
    Placed d padding sizes centers' id left := by
  obtain ⟨grid, hgrid, hplaces⟩ := h
  refine ⟨grid, hgrid, fun place hplace ↦ ?_⟩
  have htop : topOf sizes centers' id = topOf sizes centers id := by rw [topOf, topOf, hid]
  rw [htop] at hplace
  have hmem := List.mem_map_of_mem (f := Prod.fst) hplace
  rw [map_fst_placesFrom] at hmem
  obtain ⟨entry, hentry, heq⟩ := List.mem_map.1 hmem
  rw [hchildren place.1 (heq ▸ (List.of_mem_zip hentry).1), hplaces place hplace]

/-- Holds when the blocks below the top of a tree have been placed. -/
structure Places (d : Document) (padding : α) (sizes : Sizes α) (ids : List BlockId)
    (centers centers' : Centers α) : Prop where
  other : ∀ id, id ∉ ids → centers'.get? id = centers.get? id
  below : ∀ id ∈ ids, ∃ center, centers'.get? id = some center ∧
    (d.children id ≠ [] →
      Placed d padding sizes centers' id (center.x - (sizeOf sizes id).width / 2))

/-- The places of some blocks stay what they are when others are placed. -/
theorem Places.append {ids others : List BlockId} (h : Places d padding sizes ids centers centers₁)
    (h' : Places d padding sizes others centers₁ centers') (hdisjoint : ∀ id ∈ ids, id ∉ others)
    (hclosed : ∀ id ∈ ids, ∀ child ∈ d.children id, child ∈ ids) :
    Places d padding sizes (ids ++ others) centers centers' where
  other id hid := by
    rw [List.mem_append, not_or] at hid
    rw [h'.other id hid.2, h.other id hid.1]
  below id hid := by
    rcases List.mem_append.1 hid with hmem | hmem
    · obtain ⟨center, hcenter, hplaced⟩ := h.below id hmem
      have hkept := h'.other id (hdisjoint id hmem)
      refine ⟨center, hkept.trans hcenter, fun hne ↦ (hplaced hne).congr hkept fun child hchild ↦ ?_⟩
      exact h'.other child (hdisjoint child (hclosed id hmem child hchild))
    · exact h'.below id hmem

/-- A block is placed in front of those below it. -/
theorem Places.cons {id : BlockId} {ids : List BlockId} {center : Point α}
    (h : Places d padding sizes ids (centers.insert id center) centers') (hid : id ∉ ids)
    (hplaced : d.children id ≠ [] →
      Placed d padding sizes centers' id (center.x - (sizeOf sizes id).width / 2)) :
    Places d padding sizes (id :: ids) centers centers' where
  other other hother := by
    rw [List.mem_cons, not_or] at hother
    rw [h.other other hother.2, OrderedMap.get?_insert, if_neg (Ne.symm hother.1)]
  below := by
    refine List.forall_mem_cons.2 ⟨⟨center, ?_, hplaced⟩, h.below⟩
    rw [h.other id hid, OrderedMap.get?_insert, if_pos rfl]

/-- The loop over the children of a composite. -/
theorem places_children {trees : List Tree} {cells : List Cell} {top height : α}
    {cursor cursor' : Cursor α} (hshows : ∀ child ∈ trees, d.Shows levels child)
    (ih : ∀ child ∈ trees, ∀ (left : α) (centers centers' : Centers α),
      placeInside d padding sizes bound child.id left centers = .ok centers' →
      Places d padding sizes child.ids.tail centers centers' ∧
        (d.children child.id ≠ [] → Placed d padding sizes centers' child.id left))
    (hnodup : (trees.flatMap Tree.ids).Nodup) (hlength : cells.length = trees.length)
    (h : ((trees.map Tree.id).zip cells).foldlM
      (fun (cursor, centers) (child, cell) ↦ do
        let width := (sizeOf sizes child).width
        let center := nextCenter padding left top height cursor cell width
        let centers := centers.insert child center
        let centers ← placeInside d padding sizes bound child (center.x - width / 2) centers
        return ((⟨center.x + width / 2, cell.row⟩ : Cursor α), centers)) (cursor, centers) =
      .ok (cursor', centers')) :
    Places d padding sizes (trees.flatMap Tree.ids) centers centers' ∧
      ∀ place ∈ placesFrom padding left top height sizes cursor ((trees.map Tree.id).zip cells),
        centers'.get? place.1 = some place.2 := by
  induction trees generalizing cells cursor centers with
  | nil =>
    cases h
    exact ⟨⟨fun _ _ ↦ rfl, List.forall_mem_nil _⟩, List.forall_mem_nil _⟩
  | cons child trees iht =>
    cases cells with
    | nil => cases hlength
    | cons cell cells =>
      obtain ⟨hchild, hshows⟩ := List.forall_mem_cons.1 hshows
      obtain ⟨ihchild, ih⟩ := List.forall_mem_cons.1 ih
      rw [List.flatMap_cons] at hnodup ⊢
      obtain ⟨hnodupchild, hnoduprest, hdisjoint⟩ := List.nodup_append.1 hnodup
      have hapart : ∀ id ∈ child.ids, id ∉ trees.flatMap Tree.ids := fun id hid hmem ↦
        hdisjoint id hid id hmem rfl
      rw [List.map_cons, List.zip_cons_cons, List.foldlM_cons, bind_eq_ok_iff] at h
      obtain ⟨⟨cursor₁, centers₁⟩, hstep, h⟩ := h
      obtain ⟨centers₁, hinside, hstep⟩ := bind_eq_ok_iff.1 hstep
      cases hstep
      obtain ⟨hplaces, hplaced⟩ := ihchild _ _ _ hinside
      have htop : child.ids = child.id :: child.ids.tail := by
        rw [child.ids_eq_cons, List.tail_cons]
      have hid : child.id ∉ child.ids.tail := by
        rw [htop] at hnodupchild
        exact (List.nodup_cons.1 hnodupchild).1
      have hfirst := hplaces.cons hid hplaced
      rw [← htop] at hfirst
      obtain ⟨hrest, hplacesrest⟩ := iht hshows ih hnoduprest (Nat.succ.inj hlength) h
      have hclosed : ∀ id ∈ child.ids, ∀ below ∈ d.children id, below ∈ child.ids :=
        fun id hid _ hbelow ↦ List.mem_of_mem_tail (hchild.mem_tail_of_mem_children hid hbelow)
      refine ⟨hfirst.append hrest hapart hclosed, ?_⟩
      rw [List.map_cons, List.zip_cons_cons, placesFrom]
      refine List.forall_mem_cons.2 ⟨?_, hplacesrest⟩
      dsimp only
      rw [hrest.other child.id (hapart _ child.id_mem_ids), hplaces.other child.id hid,
        OrderedMap.get?_insert, if_pos rfl]

private theorem eq_of_placeInside_leaf {id : BlockId} (h : d.children id = [])
    (hrun : placeInside d padding sizes bound id left centers = .ok centers') :
    centers' = centers := by
  cases bound with
  | zero =>
    cases hrun
    rfl
  | succ bound =>
    rw [placeInside, h] at hrun
    cases hrun
    rfl

/-- Placing the blocks below the top of a tree. -/
theorem places_of_placeInside (h : d.Shows levels t) (hnodup : t.ids.Nodup)
    (hbound : levels ≤ bound)
    (hrun : placeInside d padding sizes bound t.id left centers = .ok centers') :
    Places d padding sizes t.ids.tail centers centers' ∧
      (d.children t.id ≠ [] → Placed d padding sizes centers' t.id left) := by
  induction h generalizing bound left centers centers' with
  | @leaf id h =>
    rw [eq_of_placeInside_leaf h hrun]
    exact ⟨⟨fun _ _ ↦ rfl, List.forall_mem_nil _⟩, fun hne ↦ absurd h hne⟩
  | @node levels id children h hchildren ih =>
    rw [Tree.ids_node] at hnodup ⊢
    obtain ⟨hid, hbelow⟩ := List.nodup_cons.1 hnodup
    by_cases hempty : d.children id = []
    · obtain rfl : children = [] := List.map_eq_nil_iff.1 (h.symm.trans hempty)
      rw [eq_of_placeInside_leaf hempty hrun]
      exact ⟨⟨fun _ _ ↦ rfl, List.forall_mem_nil _⟩, fun hne ↦ absurd hempty hne⟩
    · obtain ⟨bound, rfl⟩ : ∃ n, bound = n + 1 := ⟨bound - 1, by omega⟩
      rw [Tree.id, placeInside, if_neg (mt List.isEmpty_iff.1 hempty)] at hrun
      obtain ⟨grid, hgrid, hrun⟩ := bind_eq_ok_iff.1 hrun
      obtain ⟨⟨cursor, centers₁⟩, hloop, hrun⟩ := bind_eq_ok_iff.1 hrun
      cases hrun
      have hlength : grid.cells.length = children.length := by
        rw [length_ofSpans hgrid, List.length_map, h, List.length_map]
      have hinside : ∀ child ∈ children, ∀ (left : α) (centers centers' : Centers α),
          placeInside d padding sizes bound child.id left centers = .ok centers' →
          Places d padding sizes child.ids.tail centers centers' ∧
            (d.children child.id ≠ [] → Placed d padding sizes centers' child.id left) :=
        fun child hchild _ _ _ hrun ↦
          ih child hchild ((List.nodup_flatMap.1 hbelow).1 child hchild) (by omega) hrun
      rw [h] at hloop
      obtain ⟨hplaces, hplaced⟩ := places_children hchildren hinside hbelow hlength hloop
      refine ⟨hplaces, fun _ ↦ ⟨grid, hgrid, ?_⟩⟩
      rw [Tree.id, topOf, hplaces.other id hid, h]
      exact hplaced

/-- The centers of a document whose blocks form a tree. -/
theorem places_of_centersOf (h : d.Shows levels t) (hroot : t.id = BlockId.root)
    (hnodup : t.ids.Nodup) (hlevels : levels ≤ d.size)
    (hcenters : centersOf d padding sizes = .ok centers) :
    (∀ id ∈ t.ids, ∃ center, centers.get? id = some center ∧
      (id ≠ BlockId.root → d.children id ≠ [] →
        Placed d padding sizes centers id (center.x - (sizeOf sizes id).width / 2))) ∧
      (d.children BlockId.root ≠ [] → Placed d padding sizes centers BlockId.root (-padding)) := by
  rw [centersOf, ← hroot] at hcenters
  obtain ⟨hplaces, hplaced⟩ :=
    places_of_placeInside h hnodup (Nat.le_succ_of_le hlevels) hcenters
  rw [← hroot]
  refine ⟨?_, hplaced⟩
  rw [t.ids_eq_cons] at hnodup ⊢
  obtain ⟨hid, -⟩ := List.nodup_cons.1 hnodup
  rw [t.ids_eq_cons, List.tail_cons] at hplaces
  refine List.forall_mem_cons.2 ⟨⟨.origin, ?_, fun hne ↦ absurd rfl hne⟩, fun id hid ↦ ?_⟩
  · rw [hplaces.other t.id hid, OrderedMap.get?_insert, if_pos rfl]
  · obtain ⟨center, hcenter, hplaced⟩ := hplaces.below id hid
    exact ⟨center, hcenter, fun _ ↦ hplaced⟩

/-- Placing succeeds if all composites have grids. -/
theorem exists_placeInside (hgrids : ∀ id, d.children id ≠ [] → ∃ grid, gridOf d id = .ok grid)
    (bound : Nat) (id : BlockId) (left : α) (centers : Centers α) :
    ∃ centers', placeInside d padding sizes bound id left centers = .ok centers' := by
  induction bound generalizing id left centers with
  | zero => exact ⟨_, rfl⟩
  | succ bound ih =>
    rw [placeInside]
    by_cases hempty : d.children id = []
    · rw [hempty]
      exact ⟨_, rfl⟩
    · rw [if_neg (mt List.isEmpty_iff.1 hempty)]
      refine exists_bind_eq_ok (hgrids id hempty) fun grid ↦ exists_bind_eq_ok ?_ fun _ ↦ ⟨_, rfl⟩
      refine exists_foldlM_eq_ok ?_ _ _
      rintro ⟨cursor, centers⟩ ⟨child, cell⟩
      exact exists_bind_eq_ok (ih child _ _) fun _ ↦ ⟨_, rfl⟩

/-! ### Layouts -/

variable {listing : List Mention} {layout : Layout α}

/-- A layout gives a place to the root and to every block that is listed. -/
theorem exists_place_of_arrange (hlisted : d.ListedBy listing)
    (h : arrange d padding labels = .ok layout) :
    ∀ id ∈ BlockId.root :: idsOf listing, ∃ center size,
      layout.centers.get? id = some center ∧ layout.sizes.get? id = some size := by
  obtain ⟨sizes, hsizes, h⟩ := bind_eq_ok_iff.1 h
  obtain ⟨centers, hcenters, h⟩ := bind_eq_ok_iff.1 h
  cases h
  obtain ⟨t, hroot, ht⟩ := hlisted.exists_shows
  have hnodup := ht.nodup_ids hlisted hroot
  obtain ⟨plans, -, hfitted⟩ := fitted_of_sizesOf ht hroot hnodup hlisted.length_le_size hsizes
  have hplaced := (places_of_centersOf ht hroot hnodup hlisted.length_le_size hcenters).1
  intro id hid
  have hmem := (ht.mem_ids_iff hlisted hroot).2 hid
  obtain ⟨size, hsize⟩ := hfitted.exists_size id hmem
  obtain ⟨center, hcenter, -⟩ := hplaced id hmem
  exact ⟨center, size, hcenter, hsize⟩

/-- There is a layout unless a column count is zero, or there are very many blocks. -/
theorem exists_arrange (hd : d.Sound) (hlisted : d.ListedBy listing)
    (hcolumns : ∀ id b, d.block? id = some b → b.columns ≠ 0) (hsize : d.size ≤ 2 ^ 29)
    (padding : α) (labels : Sizes α) : ∃ layout, arrange d padding labels = .ok layout := by
  have hgrids : ∀ id, d.children id ≠ [] → ∃ grid, gridOf d id = .ok grid := by
    intro id _
    refine exists_gridOf hd (hcolumns id) (Nat.le_trans ?_ hsize)
    rw [hlisted.children, heldBy, List.length_map]
    exact (List.length_filter_le _ _).trans hlisted.length_le_size
  refine exists_bind_eq_ok ?_ fun sizes ↦ exists_bind_eq_ok ?_ fun _ ↦ ⟨_, rfl⟩
  · exact exists_bind_eq_ok (exists_naturalSize hgrids _ _ _) fun _ ↦ ⟨_, rfl⟩
  · exact exists_placeInside hgrids _ _ _ _

/-- What is computed for a document is its layout with the sizes of its labels. -/
theorem arrange_of_compute {settings : Settings α} {measure : String → Size α}
    (h : compute settings measure d = .ok layout) :
    isValidPadding settings.padding = true ∧
      arrange d settings.padding (labelSizes settings measure d) = .ok layout := by
  rw [compute] at h
  split at h
  · cases h
  · next hvalid =>
    rw [List.find?_eq_none] at hvalid
    have hpadding := hvalid settings.padding List.mem_cons_self
    cases harrange : arrange d settings.padding (labelSizes settings measure d) with
    | error error =>
      rw [harrange] at h
      cases h
    | ok layout' =>
      rw [harrange] at h
      dsimp only at h
      split at h
      · cases h
      · cases h
        exact ⟨by simpa using hpadding, rfl⟩

end BlockDiagram.Layout
