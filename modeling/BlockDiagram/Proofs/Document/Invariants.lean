import BlockDiagram.Proofs.Document.Building

/-!
# Invariants of building

What holds in front of a statement and behind it, and of the faults in between (`Respects`). Most
statements change blocks and nothing else, so they keep an invariant that does not look at those, or
only needs that none gets lost (`respects_perform`). Only an edge changes what is known of edges, so
an invariant that depends on nothing else is kept by all statements if it is kept by edges
(`respects_performAll`).
-/

namespace BlockDiagram.Builder

open Source (Located Span)

variable {α β : Type} {I : Builder → Prop} {E : Fault → Prop} {limit : Nat} {span : Span}

/-- Two steps fail when the first one does, or when the second one does behind it. -/
theorem run_bind_error_iff {m : Building α} {f : α → Building β} {fault : Fault} :
    (m >>= f).run b = .error fault ↔
      m.run b = .error fault ∨ ∃ x b₁, m.run b = .ok (x, b₁) ∧ (f x).run b₁ = .error fault := by
  rw [StateT.run_bind, bind_eq_error_iff, Prod.exists]

/-- Holds for steps that keep an invariant, and fail only with faults that `E` holds for. -/
structure Respects (I : Builder → Prop) (E : Fault → Prop) (m : Building α) : Prop where
  ok {b b' : Builder} {x : α} : I b → m.run b = .ok (x, b') → I b'
  error {b : Builder} {fault : Fault} : I b → m.run b = .error fault → E fault

private theorem Respects.bind {m : Building α} {f : α → Building β} (hm : Respects I E m)
    (hf : ∀ x, Respects I E (f x)) : Respects I E (m >>= f) where
  ok hb h := by
    obtain ⟨x, b₁, hfirst, hsecond⟩ := run_bind_ok_iff.1 h
    exact (hf x).ok (hm.ok hb hfirst) hsecond
  error hb h := by
    rcases run_bind_error_iff.1 h with hfirst | ⟨x, b₁, hfirst, hsecond⟩
    · exact hm.error hb hfirst
    · exact (hf x).error (hm.ok hb hfirst) hsecond

private theorem respects_pure (x : α) : Respects I E (pure x) where
  ok hb h := by
    cases h
    exact hb
  error _ h := by cases h

private theorem respects_get_bind {f : Builder → Building α} (hf : ∀ b, I b → Respects I E (f b)) :
    Respects I E (get >>= f) where
  ok hb h := (hf _ hb).ok hb h
  error hb h := (hf _ hb).error hb h

private theorem respects_modifyGet {f : Builder → α × Builder} (hf : ∀ b, I b → I (f b).2) :
    Respects I E (modifyGet f : Building α) where
  ok {b b' x} hb h := by
    have hresult : f b = (x, b') := Except.ok.inj h
    have hafter := hf b hb
    rwa [hresult] at hafter
  error _ h := by cases h

/-- A change respects what it leaves true. -/
theorem respects_modify {f : Builder → Builder} (hf : ∀ b, I b → I (f b)) :
    Respects I E (modify f) :=
  respects_modifyGet hf

private theorem respects_throw {fault : Fault} (h : E fault) :
    Respects I E (throw fault : Building α) where
  ok _ hrun := by cases hrun
  error _ hrun := by
    cases hrun
    exact h

/-- What does not look at the builder keeps every invariant. -/
theorem respects_lift {result : Except Fault α} (h : ∀ fault, result = .error fault → E fault) :
    Respects I E (liftM result : Building α) where
  ok hb hrun := (lift_cases hrun).2 ▸ hb
  error _ hrun := by
    cases result with
    | ok x => cases hrun
    | error fault =>
      cases hrun
      exact h _ rfl

/-! ### Faults -/

/-- Holds for the faults that declarations can have. -/
def IsMalformed (span : Span) (fault : Fault) : Prop :=
  (∃ text, fault = .malformedDeclaration text span) ∨
    ∃ value property, fault = .invalidColor value property span

private theorem isMalformed_of_declarationOf {piece : List Char} {span : Span} {fault : Fault}
    (h : declarationOf piece span = .error fault) : IsMalformed span fault := by
  rw [declarationOf] at h
  dsimp only at h
  split at h
  · cases h
  · split at h
    · cases h
      exact .inl ⟨_, rfl⟩
    · split at h
      · split at h
        · cases h
        · cases h
          exact .inr ⟨_, _, rfl⟩
      · cases h

private theorem isMalformed_of_declarationsOf {text : String} {span : Span} {fault : Fault}
    (h : declarationsOf text span = .error fault) : IsMalformed span fault := by
  rw [declarationsOf, bind_eq_error_iff] at h
  obtain hpieces | ⟨made, -, h⟩ := h
  · obtain ⟨piece, -, hpiece⟩ := exists_mem_of_mapM_eq_error hpieces
    exact isMalformed_of_declarationOf hpiece
  · cases h

/-- Holds for the faults that a statement can have, wherever it is. -/
structure IsCommon (span : Span) (fault : Fault) : Prop where
  span_eq : fault.span = span
  stage : fault.code.stage = .semantic
  ne : fault.code ≠ .selfNesting

private theorem isCommon_of_declarationsOf {text : String} {fault : Fault}
    (h : declarationsOf text span = .error fault) : IsCommon span fault := by
  rcases isMalformed_of_declarationsOf h with ⟨_, rfl⟩ | ⟨_, _, rfl⟩
  · exact ⟨rfl, rfl, Diagnostic.Code.noConfusion⟩
  · exact ⟨rfl, rfl, Diagnostic.Code.noConfusion⟩

/-! ### Blocks -/

/-- Holds for changes of a document that keep its edges and lose no block. -/
structure LosesNothing (f : Document → Document) : Prop where
  edges : ∀ d, (f d).edges = d.edges
  contains : ∀ d id, d.contains id = true → (f d).contains id = true

/-- To change a block loses nothing. -/
theorem losesNothing_modifyBlock (changed : BlockId) (g : Block → Block) :
    LosesNothing (·.modifyBlock changed g) where
  edges _ := rfl
  contains d id hid := by
    obtain ⟨b, hb⟩ := Document.exists_block?_of_contains hid
    rw [Document.contains_eq_isSome, Document.block?_modifyBlock, hb]
    split <;> rfl

/-- To register a block loses nothing. -/
theorem losesNothing_insertBlock (block : Block) : LosesNothing (·.insertBlock block) where
  edges d := d.edges_insertBlock block
  contains d id hid := by
    rw [Document.contains_eq_isSome, Document.block?_insertBlock]
    split
    · rfl
    · rwa [← Document.contains_eq_isSome]

private theorem LosesNothing.of_eq {f : Document → Document} (hedges : ∀ d, (f d).edges = d.edges)
    (hblocks : ∀ d, (f d).blocks = d.blocks) : LosesNothing f where
  edges := hedges
  contains d id hid := by rwa [Document.contains, hblocks]

/-- Holds for invariants that are kept when blocks change, become more or are placed, as long as
spacers are numbered as before. -/
def ToleratesBlocks (I : Builder → Prop) : Prop :=
  ∀ b b', b'.document.edges = b.document.edges → b'.connections = b.connections →
    b'.enclosing = b.enclosing → b'.spacers = b.spacers →
    (∀ id, b.document.contains id = true → b'.document.contains id = true) → I b → I b'

/-- Holds for invariants that depend neither on the blocks nor on which of them are placed. -/
def IgnoresBlocks (I : Builder → Prop) : Prop :=
  ∀ b b', b'.document.edges = b.document.edges → b'.connections = b.connections →
    b'.enclosing = b.enclosing → I b → I b'

/-- What does not depend on blocks stays true when blocks are added. -/
theorem IgnoresBlocks.tolerates (hI : IgnoresBlocks I) : ToleratesBlocks I :=
  fun b b' hedges hconnections henclosing _ _ hb ↦ hI b b' hedges hconnections henclosing hb

private theorem respects_modifyDocument (hI : ToleratesBlocks I) {f : Document → Document}
    (hf : LosesNothing f) : Respects I E (modifyDocument f) :=
  respects_modify fun b hb ↦ hI b _ (hf.edges _) rfl rfl rfl (hf.contains _) hb

section Faults

variable (hI : ToleratesBlocks I) (hE : ∀ fault, IsCommon span fault → E fault)

include hE

/-- Asking for room changes nothing. -/
theorem respects_reserve (count : Nat) : Respects I E (reserve limit count span) := by
  refine respects_get_bind fun b _ ↦ ?_
  split
  · exact respects_throw (hE _ ⟨rfl, rfl, Diagnostic.Code.noConfusion⟩)
  · exact respects_pure ()

private theorem respects_declarationsOf (text : String) :
    Respects I E (liftM (declarationsOf text span) : Building (List String)) :=
  respects_lift fun _ h ↦ hE _ (isCommon_of_declarationsOf h)

include hI

/-- A declaration changes blocks only. -/
theorem respects_declare (node : NodeDecl) : Respects I E (declare limit node span) := by
  refine respects_get_bind fun b _ ↦ ?_
  split
  · exact respects_modifyDocument hI (losesNothing_modifyBlock _ _)
  · exact (respects_reserve hE 1).bind fun _ ↦
      respects_modifyDocument hI (losesNothing_insertBlock _)

/-- Applying a class changes blocks only. -/
theorem respects_applyClass (name : String) (ids : List BlockId) :
    Respects I E (applyClass limit name span ids) := by
  induction ids with
  | nil => exact respects_pure ()
  | cons id ids ih =>
    refine respects_get_bind fun b _ ↦ ?_
    have hrest : Respects I E (modifyDocument (·.modifyBlock id (·.addClass name)) >>= fun _ ↦
        applyClass limit name span ids) :=
      Respects.bind (respects_modifyDocument hI (losesNothing_modifyBlock _ _)) fun _ ↦ ih
    split
    · refine (respects_reserve hE 1).bind fun _ ↦ ?_
      exact (respects_modifyDocument hI (losesNothing_insertBlock _)).bind fun _ ↦ hrest
    · exact hrest

private theorem respects_applyStyles (declarations : List String) (ids : List BlockId) :
    Respects I E (applyStyles declarations span ids) := by
  induction ids with
  | nil => exact respects_pure ()
  | cons id ids ih =>
    refine respects_get_bind fun b _ ↦ ?_
    have hrest : Respects I E
        (modifyDocument (·.modifyBlock id fun b ↦ declarations.foldl Block.addStyle b) >>= fun _ ↦
          applyStyles declarations span ids) :=
      Respects.bind (respects_modifyDocument hI (losesNothing_modifyBlock _ _)) fun _ ↦ ih
    split
    · have hundeclared := hE (.undeclaredTarget id span) ⟨rfl, rfl, Diagnostic.Code.noConfusion⟩
      exact (respects_throw hundeclared).bind fun _ ↦ hrest
    · exact hrest

end Faults

/-- Placing a block changes no more than what is placed. -/
theorem respects_place (hI : ToleratesBlocks I) (id : BlockId) (children : List BlockId) :
    Respects I E (place id children) := by
  refine respects_modifyGet fun b hb ↦ ?_
  split
  · exact hb
  · exact hI b _ rfl rfl rfl rfl (fun _ hid ↦ hid) hb

section Spacers

variable (hI : IgnoresBlocks I)

include hI

private theorem respects_addSpacer (composite : BlockId) (children : List BlockId) :
    Respects I E (addSpacer composite children) := by
  refine respects_get_bind fun b hb ↦ ?_
  refine Respects.bind (m := (set _ : Building PUnit)) ?_ fun _ ↦
    respects_place hI.tolerates _ children
  exact respects_modifyGet fun _ _ ↦ hI b _ (b.document.edges_insertBlock _) rfl rfl hb

/-- New spacers change nothing but blocks, and where they are counted and placed. -/
theorem respects_addSpacers (composite : BlockId) (count : Nat) (children : List BlockId) :
    Respects I E (addSpacers composite count children) := by
  induction count generalizing children with
  | zero => exact respects_pure children
  | succ count ih => exact (respects_addSpacer hI composite children).bind ih

end Spacers

/-! ### Statements -/

/-- A statement without a body respects what its edge, its spacers or the check of its name do. -/
theorem respects_perform (hI : ToleratesBlocks I) {statement : Statement}
    (hconnect : ∀ e ∈ statement.edges, Respects I E (connect e))
    (hcheck : ∀ id ∈ statement.names, Respects I E (checkNotEnclosing id span))
    (hE : ∀ fault, IsCommon span fault → E fault) (h : statement.isComposite = false)
    {composite : BlockId} {children : List BlockId}
    (hspacers : ∀ count, statement = .space count →
      Respects I E (addSpacers composite count children)) :
    Respects I E (perform limit composite span children statement) := by
  cases statement with
  | composite head body => cases h
  | node node =>
    rw [perform]
    refine (respects_declare hI hE node).bind fun _ ↦ ?_
    exact (hcheck node.id (List.mem_singleton_self _)).bind fun _ ↦
      respects_place hI node.id children
  | space count =>
    rw [perform]
    exact (respects_reserve hE count).bind fun _ ↦ hspacers count rfl
  | edge e =>
    rw [perform]
    exact (hconnect e (List.mem_singleton_self e)).bind fun _ ↦ respects_pure children
  | columns count =>
    rw [perform]
    exact Respects.bind (respects_modifyDocument hI (losesNothing_modifyBlock _ _)) fun _ ↦
      respects_pure children
  | title text | description text =>
    rw [perform]
    exact Respects.bind (respects_modifyDocument hI (.of_eq (fun _ ↦ rfl) fun _ ↦ rfl)) fun _ ↦
      respects_pure children
  | classDef name declarations =>
    rw [perform]
    refine (respects_declarationsOf hE declarations).bind fun _ ↦ ?_
    exact Respects.bind (respects_modifyDocument hI (.of_eq (fun _ ↦ rfl) fun _ ↦ rfl)) fun _ ↦
      respects_pure children
  | applyClass targets name =>
    rw [perform]
    exact (respects_applyClass hI hE name _).bind fun _ ↦ respects_pure children
  | applyStyles targets declarations =>
    rw [perform]
    refine (respects_declarationsOf hE declarations).bind fun declarations ↦ ?_
    exact (respects_applyStyles hI hE declarations _).bind fun _ ↦ respects_pure children

/-! ### Edges -/

/-- Holds for invariants that depend on the edges, and on how often ends have been connected. -/
def DependsOnEdges (I : Builder → Prop) : Prop :=
  ∀ b b', b'.document.edges = b.document.edges → b'.connections = b.connections → I b → I b'

private theorem DependsOnEdges.ignoresBlocks (hI : DependsOnEdges I) : IgnoresBlocks I :=
  fun b b' hedges hconnections _ hb ↦ hI b b' hedges hconnections hb

private theorem respects_modifyEnclosing (hI : DependsOnEdges I) (f : List BlockId → List BlockId) :
    Respects I E (modify fun b ↦ { b with enclosing := f b.enclosing }) :=
  respects_modify fun b hb ↦ hI b _ rfl rfl hb

/-- The check for composites inside themselves changes nothing. -/
theorem respects_checkNotEnclosing {id : BlockId} (h : E (.nestedInItself id span)) :
    Respects I E (checkNotEnclosing id span) := by
  refine respects_get_bind fun b _ ↦ ?_
  split
  · exact respects_throw h
  · exact respects_pure ()

/-- Statements respect what their edges do, and their faults are where they are. -/
theorem respects_performAll (hI : DependsOnEdges I) (ss : List (Located Statement))
    (hconnect : ∀ e ∈ edgesIn ss, Respects I E (connect e))
    (hE : ∀ fault : Fault, fault.span ∈ placesIn ss → fault.code.stage = .semantic → E fault)
    (composite : BlockId) (children : List BlockId) :
    Respects I E (performAll limit composite children ss) := by
  induction ss using statements_induction generalizing composite children with
  | nil =>
    rw [performAll]
    exact respects_pure children
  | composite head body span ss ihbody ih =>
    simp only [collect_composite, Statement.edges, List.nil_append, List.forall_mem_append]
      at hconnect
    simp only [collect_composite, List.cons_append, List.nil_append, List.mem_cons,
      List.mem_append] at hE
    have hinside := fun fault h ↦ hE fault (.inr (.inl h))
    have hbehind := fun fault h ↦ hE fault (.inr (.inr h))
    rw [performAll, perform]
    refine Respects.bind ?_ fun _ ↦ ih hconnect.2 hbehind composite _
    refine (respects_declare hI.ignoresBlocks.tolerates
      (fun fault h ↦ hE fault (.inl h.span_eq) h.stage) head).bind fun _ ↦ ?_
    refine (respects_checkNotEnclosing (hE _ (.inl rfl) rfl)).bind fun _ ↦ ?_
    refine (respects_modifyEnclosing hI (head.id :: ·)).bind fun _ ↦ ?_
    refine (ihbody hconnect.1 hinside head.id []).bind fun _ ↦ ?_
    refine Respects.bind (respects_modifyDocument hI.ignoresBlocks.tolerates ?_) fun _ ↦ ?_
    · exact ⟨fun _ ↦ rfl, fun d ↦ (losesNothing_modifyBlock _ _).contains d⟩
    exact (respects_modifyEnclosing hI List.tail).bind fun _ ↦
      respects_place hI.ignoresBlocks.tolerates head.id children
  | other statement span ss hother ih =>
    simp only [collect_of_not_composite hother, List.forall_mem_append] at hconnect
    simp only [collect_of_not_composite hother, List.singleton_append, List.mem_cons] at hE
    rw [performAll]
    refine (respects_perform hI.ignoresBlocks.tolerates hconnect.1
      (fun _ _ ↦ respects_checkNotEnclosing (hE _ (.inl rfl) rfl))
      (fun fault h ↦ hE fault (.inl h.span_eq) h.stage) hother fun count _ ↦
        respects_addSpacers hI.ignoresBlocks composite count children).bind fun _ ↦ ?_
    exact ih hconnect.2 (fun fault h ↦ hE fault (.inr h)) composite _

/-- What building fails with is found in one of the statements. -/
theorem span_mem_placesIn_of_build {ss : List (Located Statement)} {fault : Fault}
    (h : build limit ss = .error fault) :
    fault.span ∈ placesIn ss ∧ fault.code.stage = .semantic := by
  have hrespects : Respects (fun _ ↦ True)
      (fun fault ↦ fault.span ∈ placesIn ss ∧ fault.code.stage = .semantic)
      (performAll limit BlockId.root [] ss) :=
    respects_performAll (fun _ _ _ _ _ ↦ trivial) ss
      (fun e _ ↦ respects_modify fun _ _ ↦ trivial) (fun _ ↦ And.intro) BlockId.root []
  exact hrespects.error trivial (run_of_build_error h)

/-- An invariant that holds in the beginning holds of a builder with the edges of the document. -/
theorem exists_builder_of_build (hI : DependsOnEdges I) (hstart : I start)
    {ss : List (Located Statement)} (hconnect : ∀ e ∈ edgesIn ss, ∀ {E}, Respects I E (connect e))
    {d : Document} (h : build limit ss = .ok d) : ∃ b, I b ∧ d.edges = b.document.edges := by
  have hrespects : Respects I (fun _ ↦ True) (performAll limit BlockId.root [] ss) :=
    respects_performAll hI ss (fun e he ↦ hconnect e he) (fun _ _ _ ↦ trivial) BlockId.root []
  obtain ⟨children, b, hrun, rfl⟩ := run_of_build_ok h
  exact ⟨b, hrespects.ok hstart hrun, rfl⟩

end BlockDiagram.Builder
