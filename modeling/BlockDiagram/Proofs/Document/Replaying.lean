import BlockDiagram.Proofs.Document.Freshness
import BlockDiagram.Proofs.Document.Revisions

/-!
# Statements once more

Where all blocks that statements name are registered and placed, the statements only set something
again (`run_performAll_again`). What they set has been set when they were carried out the first time
(`Document.Sets.revise_eq`), so the second time leaves the document as it is (`build_append_self`).
-/

namespace BlockDiagram

open Source (Located Span)

/-- Blocks with something set of them; what is set of unknown ones is lost. -/
def reviseBlocks (blocks : OrderedMap Block) (settings : List (BlockId × Settings)) :
    OrderedMap Block :=
  settings.foldl (fun blocks setting ↦ blocks.modify setting.1 setting.2.apply) blocks

private theorem keys_reviseBlocks (blocks : OrderedMap Block)
    (settings : List (BlockId × Settings)) : (reviseBlocks blocks settings).keys = blocks.keys := by
  induction settings generalizing blocks with
  | nil => rfl
  | cons setting settings ih => exact (ih _).trans (blocks.keys_modify _ _)

private theorem get?_reviseBlocks (blocks : OrderedMap Block) (settings : List (BlockId × Settings))
    (id : BlockId) :
    (reviseBlocks blocks settings).get? id =
      (blocks.get? id).map (settingsFor id settings).apply := by
  induction settings generalizing blocks with
  | nil => exact Option.map_id_apply.symm
  | cons setting settings ih =>
    obtain ⟨other, s⟩ := setting
    refine (ih _).trans ?_
    rw [OrderedMap.get?_modify, settingsFor]
    by_cases hid : other = id
    · subst hid
      rw [if_pos rfl, if_pos rfl, Option.map_map]
      exact congrArg (fun f ↦ (blocks.get? other).map f)
        (funext fun block ↦ (Settings.apply_append s _ block).symm)
    · rw [if_neg hid, if_neg hid]

namespace Document

variable {d d' : Document} {r : Revision}

/-- A document with something set in it. -/
def revise (d : Document) (r : Revision) : Document :=
  { d with
    blocks := reviseBlocks d.blocks r.settings
    title := r.title.or d.title
    description := r.description.or d.description }

private theorem revise_append (d : Document) (r r' : Revision) :
    d.revise (r.append r') = (d.revise r).revise r' := by
  simp only [revise, reviseBlocks, Revision.append, List.foldl_append, Option.or_assoc]

@[simp] private theorem contains_revise (d : Document) (r : Revision) (id : BlockId) :
    (d.revise r).contains id = d.contains id := by
  rw [Bool.eq_iff_iff, contains, contains, OrderedMap.contains_iff_mem_keys,
    OrderedMap.contains_iff_mem_keys, revise, keys_reviseBlocks]

/-- What has been set is as if it was set once more. -/
theorem Sets.revise_eq (h : Sets r d d') : d'.revise r = d' := by
  have hblocks : reviseBlocks d'.blocks r.settings = d'.blocks := by
    refine OrderedMap.ext_get? (keys_reviseBlocks _ _) fun id ↦ ?_
    rw [get?_reviseBlocks]
    cases hblock' : d'.blocks.get? id with
    | none => rfl
    | some block' =>
      have hset : ∃ block, block' = (r.of id).apply block := by
        cases hblock : d.block? id with
        | none => exact h.new id block' hblock hblock'
        | some block =>
          obtain ⟨children, hkept⟩ := h.kept id block hblock
          exact ⟨_, Option.some.inj (hblock'.symm.trans hkept)⟩
      obtain ⟨block, rfl⟩ := hset
      exact congrArg some (Settings.apply_apply _ block)
  have htitle : r.title.or d'.title = d'.title := by
    rw [h.title, ← Option.or_assoc, Option.or_self]
  have hdescription : r.description.or d'.description = d'.description := by
    rw [h.description, ← Option.or_assoc, Option.or_self]
  rw [revise, hblocks, htitle, hdescription]

/-- To put those blocks inside a block that it holds changes nothing. -/
theorem setChildren_children (d : Document) (id : BlockId) :
    d.setChildren id (d.children id) = d := by
  have hblocks : (d.setChildren id (d.children id)).blocks = d.blocks := by
    refine OrderedMap.ext_get? (d.blocks.keys_modify _ _) fun other ↦ ?_
    refine (block?_setChildren d id _ other).trans ?_
    split
    · next hid =>
      subst hid
      cases hblock : d.block? id with
      | none => exact hblock.symm
      | some block =>
        rw [children_of_block? hblock]
        exact hblock.symm
    · rfl
  calc d.setChildren id (d.children id)
      = { d with blocks := (d.setChildren id (d.children id)).blocks } := rfl
    _ = d := by rw [hblocks]

end Document

namespace Builder

variable {limit : Nat} {b b' : Builder} {composite : BlockId} {span : Span}
  {children children' : List BlockId}

/-- A run leaves those blocks placed that were placed before, and those that its statements name. -/
theorem Carries.placed {ss : List (Located Statement)}
    (h : Carries limit composite b children ss b' children') :
    (∀ id ∈ b.placed, id ∈ b'.placed) ∧ ∀ id ∈ namesIn ss, id ∈ b'.placed := by
  induction h using Carries.induction with
  | nil => exact ⟨fun id hid ↦ hid, List.forall_mem_nil _⟩
  | node hdeclare _ hplace _ ih =>
    have hplaced := (place_cases hplace).2.2.1
    rw [(declare_cases hdeclare).1] at hplaced
    refine ⟨fun id hid ↦ ih.1 id ((hplaced id).2 (.inr hid)), ?_⟩
    exact List.forall_mem_cons.2 ⟨ih.1 _ ((hplaced _).2 (.inl rfl)), ih.2⟩
  | composite hdeclare _ _ hplace _ ihbody ih =>
    have hplaced := (place_cases hplace).2.2.1
    have hdeclared := (declare_cases hdeclare).1
    refine ⟨fun id hid ↦ ih.1 id ((hplaced id).2 (.inr (ihbody.1 id ?_))), ?_⟩
    · exact hdeclared ▸ hid
    · refine List.forall_mem_cons.2 ⟨ih.1 _ ((hplaced _).2 (.inl rfl)), fun id hid ↦ ?_⟩
      rcases List.mem_append.1 hid with hid | hid
      · exact ih.1 id ((hplaced id).2 (.inr (ihbody.2 id hid)))
      · exact ih.2 id hid
  | space _ hspaces _ ih =>
    exact ⟨fun id hid ↦ ih.1 id ((hspaces.placed id).2 (.inr hid)), ih.2⟩
  | @other composite _ _ _ _ _ _ _ _ hother hstep _ ih =>
    refine ⟨fun id hid ↦ ih.1 id (hstep.placed ▸ hid), ?_⟩
    rw [namesIn_cons_of_placesBlocks hother]
    exact ih.2

/-! ### The second time -/

/-- The state in which more has been set. -/
def revise (b : Builder) (r : Revision) : Builder :=
  { b with document := b.document.revise r }

@[simp] private theorem document_revise (b : Builder) (r : Revision) :
    (b.revise r).document = b.document.revise r := rfl

private theorem revise_append (b : Builder) (r r' : Revision) :
    b.revise (r.append r') = (b.revise r).revise r' := by
  simp only [revise, Document.revise_append]

private theorem run_declare_again {node : NodeDecl} (limit : Nat) (span : Span)
    (h : b.document.contains node.id = true) :
    (declare limit node span).run b =
      .ok ((), b.revise { settings := [(node.id, .ofDecl node)] }) := by
  rw [run_declare_of_contains limit span h, Settings.merge_eq_apply]
  rfl

private theorem run_applyClass_again {name : String} {ids : List BlockId}
    (h : ∀ id ∈ ids, b.document.contains id = true) :
    (applyClass limit name span ids).run b =
      .ok ((), b.revise { settings := ids.map fun id ↦ (id, { classes := [name] }) }) := by
  induction ids generalizing b with
  | nil => rfl
  | cons id ids ih =>
    obtain ⟨hid, hids⟩ := List.forall_mem_cons.1 h
    have hfirst : (applyClass limit name span [id]).run b =
        .ok ((), b.revise { settings := [(id, { classes := [name] })] }) := by
      rw [run_applyClass_of_contains hid, Settings.addClass_eq_apply]
      rfl
    rw [run_applyClass_bind, hfirst]
    exact ih fun other hother ↦ by simpa using hids other hother

/-- A statement without a body only sets something again. -/
theorem run_perform_again {statement : Statement} (hsetting : statement.isSetting = true)
    (hbody : statement.isComposite = false) (hapart : statement.selfNested b.enclosing span = [])
    (hplaced : ∀ id ∈ statement.names, id ∈ b.placed)
    (hknown : ∀ id ∈ (statement.revision composite).ids, b.document.contains id = true) :
    (perform limit composite span children statement).run b =
      .ok (children, b.revise (statement.revision composite)) := by
  cases statement with
  | composite head body => cases hbody
  | node node =>
    have hdeclared := run_declare_again limit span (hknown node.id (List.mem_singleton_self _))
    rw [run_perform_node composite hdeclared (found_eq_nil_iff.1 hapart)]
    exact run_place_of_mem (hplaced node.id (List.mem_singleton_self _))
  | applyClass targets name =>
    refine run_perform_applyClass (run_applyClass_again fun id hid ↦ hknown id ?_)
    rw [Revision.ids, Statement.revision, List.map_map]
    exact List.mem_map.2 ⟨id, hid, rfl⟩
  | columns count | title text | description text =>
    rw [perform]
    rfl
  | _ => cases hsetting

/-- Where all that statements name is registered and placed, they only set something again. -/
theorem run_performAll_again (ss : List (Located Statement)) (hss : allSettings ss = true)
    (hapart : selfNestedIn b.enclosing ss = []) (hplaced : ∀ id ∈ namesIn ss, id ∈ b.placed)
    (hknown : ∀ id ∈ (revisionOf composite ss).ids, b.document.contains id = true) :
    (performAll limit composite children ss).run b =
      .ok (children, b.revise (revisionOf composite ss)) := by
  induction ss using statements_induction generalizing composite b children with
  | nil => exact run_performAll_nil limit composite children b
  | composite head body span statements ihbody ih =>
    rw [allSettings, Statement.isSetting, Bool.and_eq_true] at hss
    rw [selfNestedIn, Statement.selfNested, List.append_eq_nil_iff, List.append_eq_nil_iff,
      found_eq_nil_iff] at hapart
    rw [namesIn_composite, List.forall_mem_cons, List.forall_mem_append] at hplaced
    rw [revisionOf, Statement.revision, Revision.ids_append, Revision.ids_append,
      List.forall_mem_append, List.forall_mem_append] at hknown
    obtain ⟨⟨hhead, hbody⟩, hrest⟩ := hknown
    have hdeclared := run_declare_again limit span (hhead head.id (List.mem_singleton_self _))
    have hinner := @ihbody { b.revise { settings := [(head.id, .ofDecl head)] } with
      enclosing := head.id :: b.enclosing } head.id [] hss.1 hapart.1.2 hplaced.2.1
        (by simpa using hbody)
    -- The body places nothing, so the composite holds what it held before.
    have hfirst : (perform limit composite span children (.composite head body)).run b =
        .ok (children, b.revise (Statement.revision composite (.composite head body))) := by
      rw [run_perform_composite hdeclared hapart.1.1 hinner, List.reverse_nil, List.append_nil,
        Document.setChildren_children, Statement.revision, revise_append]
      exact run_place_of_mem hplaced.1
    rw [run_performAll_cons hfirst, revisionOf, revise_append]
    exact ih hss.2 hapart.2 hplaced.2.2 (by simpa using hrest)
  | other statement span statements hother ih =>
    rw [allSettings, Bool.and_eq_true] at hss
    rw [selfNestedIn, List.append_eq_nil_iff] at hapart
    rw [namesIn, collect_of_not_composite hother, List.forall_mem_append] at hplaced
    rw [revisionOf, Revision.ids_append, List.forall_mem_append] at hknown
    rw [run_performAll_cons (run_perform_again hss.1 hother hapart.1 hplaced.1 hknown.1),
      revisionOf, revise_append]
    exact ih hss.2 hapart.2 hplaced.2 (by simpa using hknown.2)

/-- Statements that only set something build the same document when they are repeated. -/
theorem build_append_self {ss : List (Located Statement)} {d : Document}
    (hss : allSettings ss = true) (h : build limit ss = .ok d) :
    build limit (ss ++ ss) = .ok d := by
  obtain ⟨children, b, hrun, rfl, henclosing, -, hbuild⟩ := exists_run_of_build h
  have hroot : start.document.contains BlockId.root = true := Document.contains_empty_iff.2 rfl
  have hcarries := (carries_of_performAll ss placesKnown_start hrun).1
  have hsets := hcarries.sets hss hroot
  have hapart : selfNestedIn b.enclosing ss = [] := by
    rw [henclosing]
    exact (build_cases limit ss).1 _ h
  rw [hbuild, run_performAll_again ss hss hapart hcarries.placed.2 hsets.known, revise, hsets.revise_eq]
  rfl

/-- A block in two composites, one inside the other, which gets a shape and a label in the inner
one. -/
def twiceInside : List (Located Statement) :=
  [⟨.columns 2, .emptyAt 0⟩,
    ⟨.composite { id := "g", label := some ⟨"Group", false⟩, shape := .composite }
      [⟨.node { id := "a", width := 2 }, .emptyAt 0⟩,
        ⟨.composite { id := "h", shape := .composite }
          [⟨.node { id := "b" }, .emptyAt 0⟩,
            ⟨.node { id := "a", label := some ⟨"A", true⟩, shape := .diamond }, .emptyAt 0⟩],
          .emptyAt 0⟩],
      .emptyAt 0⟩,
    ⟨.applyClass "a, c" "wide", .emptyAt 0⟩, ⟨.title "Twice", .emptyAt 0⟩]

/-- It stays in the outer one, whatever is repeated. -/
theorem children_twiceInside : ∃ d, build 9 twiceInside = .ok d ∧
    build 9 (twiceInside ++ twiceInside) = .ok d ∧ d.children "g" = ["a", "h"] ∧
      d.children "h" = ["b"] := by
  have hdecide : ((build 9 twiceInside).toOption.map fun d ↦ (d.children "g", d.children "h")) =
      some (["a", "h"], ["b"]) := by
    decide +kernel
  obtain ⟨d, hd, hchildren⟩ := Option.map_eq_some_iff.1 hdecide
  have hbuild := eq_ok_of_toOption hd
  obtain ⟨houter, hinner⟩ := Prod.mk.inj hchildren
  exact ⟨d, hbuild, build_append_self (by decide +kernel) hbuild, houter, hinner⟩

end Builder

end BlockDiagram
