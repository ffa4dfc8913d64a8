import BlockDiagram.Grammar.Meaning

/-!
# Statements of a source

What statements say about blocks and edges, nested ones included: all of it is gathered by one
traversal (`collect`). So are the names that they declare (`namesIn`), the edges between them
(`edgesIn`) and where they say it (`placesIn`). The statements of a source are `WellFormed`: shapes
and widths are those that can be written, and both ends of an edge are declared.
-/

namespace BlockDiagram

open Source (Located)

/-! ### All statements -/

section

variable {γ : Type} (own : Located Statement → List γ)

mutual

/-- What `own` gives for a statement, and behind it what it gives for the body of a composite. -/
def Statement.collect (span : Source.Span) : Statement → List γ
  | .composite head body => own ⟨.composite head body, span⟩ ++ collect body
  | statement => own ⟨statement, span⟩

/-- What `own` gives for statements, those in the bodies of composites included, in order. -/
def collect : List (Located Statement) → List γ
  | [] => []
  | ⟨statement, span⟩ :: statements => statement.collect span ++ collect statements

end

end

/-- The ids that a statement declares itself as nodes or composites. -/
def Statement.names : Statement → List String
  | .node decl => [decl.id]
  | .composite head _ => [head.id]
  | _ => []

/-- The ids that statements declare as nodes or composites, in order. -/
abbrev namesIn (statements : List (Located Statement)) : List String :=
  collect (fun s ↦ s.value.names) statements

/-- The edge that a statement is, if it is one. -/
def Statement.edges : Statement → List EdgeDecl
  | .edge decl => [decl]
  | _ => []

/-- The edges of statements, in order. -/
abbrev edgesIn (statements : List (Located Statement)) : List EdgeDecl :=
  collect (fun s ↦ s.value.edges) statements

/-- The places of statements, and of all statements in their bodies. -/
abbrev placesIn (statements : List (Located Statement)) : List Source.Span :=
  collect (fun s ↦ [s.span]) statements

/-- Holds for nodes that can be written: no one asks for a spacer, and there is a largest width. -/
structure NodeDecl.IsProper (node : NodeDecl) : Prop where
  shape_ne_space : node.shape ≠ .space
  width_le : node.width ≤ Grammar.maxWidth

mutual

/-- Holds for statements whose nodes, composites and column counts can be written. -/
def Statement.IsProper : Statement → Prop
  | .node node => node.IsProper
  | .composite head body => head.IsProper ∧ head.shape = .composite ∧ AllProper body
  | .columns count => count ≤ Grammar.maxColumns
  | _ => True

/-- Holds for lists of statements whose nodes, composites and column counts can be written. -/
def AllProper : List (Located Statement) → Prop
  | [] => True
  | ⟨statement, _⟩ :: statements => statement.IsProper ∧ AllProper statements

end

/-- Holds for statements as a source can have them. -/
structure WellFormed (statements : List (Located Statement)) : Prop where
  proper : AllProper statements
  /-- Both ends of every edge are declared. -/
  ends : ∀ e ∈ edgesIn statements, e.start ∈ namesIn statements ∧ e.target ∈ namesIn statements

/-- Holds for composites. -/
def Statement.isComposite : Statement → Bool
  | .composite _ _ => true
  | _ => false

/-- Induction on statements and on the bodies of composites. -/
@[elab_as_elim]
theorem statements_induction {motive : List (Located Statement) → Prop} (nil : motive [])
    (composite : ∀ head body span statements, motive body → motive statements →
      motive (⟨.composite head body, span⟩ :: statements))
    (other : ∀ statement span statements, statement.isComposite = false → motive statements →
      motive (⟨statement, span⟩ :: statements)) :
    ∀ statements, motive statements
  | [] => nil
  | ⟨.composite head body, span⟩ :: statements =>
    composite head body span statements (statements_induction nil composite other body)
      (statements_induction nil composite other statements)
  | ⟨.node node, span⟩ :: statements =>
    other _ span statements rfl (statements_induction nil composite other statements)
  | ⟨.space count, span⟩ :: statements =>
    other _ span statements rfl (statements_induction nil composite other statements)
  | ⟨.columns count, span⟩ :: statements =>
    other _ span statements rfl (statements_induction nil composite other statements)
  | ⟨.edge edge, span⟩ :: statements =>
    other _ span statements rfl (statements_induction nil composite other statements)
  | ⟨.classDef name declarations, span⟩ :: statements =>
    other _ span statements rfl (statements_induction nil composite other statements)
  | ⟨.applyClass targets name, span⟩ :: statements =>
    other _ span statements rfl (statements_induction nil composite other statements)
  | ⟨.applyStyles targets declarations, span⟩ :: statements =>
    other _ span statements rfl (statements_induction nil composite other statements)
  | ⟨.title text, span⟩ :: statements =>
    other _ span statements rfl (statements_induction nil composite other statements)
  | ⟨.description text, span⟩ :: statements =>
    other _ span statements rfl (statements_induction nil composite other statements)

variable {statements others : List (Located Statement)}

section

variable {γ δ : Type} {own own' : Located Statement → List γ}

/-- There is nothing to collect from no statements. -/
@[simp] theorem collect_nil : collect own [] = [] := by
  rw [collect]

/-- A composite comes in front of its body. -/
@[simp] theorem collect_composite {head : NodeDecl} {body : List (Located Statement)}
    {span : Source.Span} :
    collect own (⟨.composite head body, span⟩ :: statements) =
      own ⟨.composite head body, span⟩ ++ collect own body ++ collect own statements := by
  rw [collect, Statement.collect]

/-- A statement without a body has only what is its own. -/
theorem collect_of_not_composite {statement : Statement} {span : Source.Span}
    (h : statement.isComposite = false) :
    collect own (⟨statement, span⟩ :: statements) =
      own ⟨statement, span⟩ ++ collect own statements := by
  rw [collect]
  cases statement with
  | composite head body => cases h
  | _ => rfl

/-- What statements say is said in front of what the statements behind them say. -/
theorem collect_append :
    collect own (statements ++ others) = collect own statements ++ collect own others := by
  induction statements with
  | nil => rw [collect_nil, List.nil_append, List.nil_append]
  | cons statement statements ih =>
    rw [List.cons_append, collect, collect, ih, List.append_assoc]

/-- To change all of what is collected is to collect what is changed. -/
theorem map_collect (f : γ → δ) (statements : List (Located Statement)) :
    (collect own statements).map f = collect (fun s ↦ (own s).map f) statements := by
  induction statements using statements_induction with
  | nil => rfl
  | composite head body span statements ihbody ih =>
    rw [collect_composite, collect_composite, List.map_append, List.map_append, ihbody, ih]
  | other statement span statements hother ih =>
    rw [collect_of_not_composite hother, collect_of_not_composite hother, List.map_append, ih]

/-- What is collected at once may be collected in two turns, but for the order. -/
theorem collect_perm_append (statements : List (Located Statement)) :
    (collect (fun s ↦ own s ++ own' s) statements).Perm
      (collect own statements ++ collect own' statements) := by
  classical
  induction statements using statements_induction with
  | nil => exact .refl _
  | composite head body span statements ihbody ih =>
    rw [List.perm_iff_count] at ihbody ih ⊢
    intro x
    have := ihbody x
    have := ih x
    simp only [collect_composite, List.count_append] at *
    omega
  | other statement span statements hother ih =>
    rw [List.perm_iff_count] at ih ⊢
    intro x
    have := ih x
    simp only [collect_of_not_composite hother, List.count_append] at *
    omega

end

/-- A composite is declared in front of all that its body declares. -/
theorem namesIn_composite {head : NodeDecl} {body : List (Located Statement)} {span : Source.Span} :
    namesIn (⟨.composite head body, span⟩ :: statements) =
      head.id :: (namesIn body ++ namesIn statements) := by
  rw [namesIn, collect_composite]
  rfl

private theorem AllProper.append (h : AllProper statements) (h' : AllProper others) :
    AllProper (statements ++ others) := by
  induction statements with
  | nil => exact h'
  | cons statement statements ih =>
    rw [AllProper] at h
    exact ⟨h.1, ih h.2⟩

namespace WellFormed

/-- No statements are well formed. -/
theorem nil : WellFormed [] where
  proper := trivial
  ends := List.forall_mem_nil _

/-- Well-formed statements may follow each other. -/
theorem append (h : WellFormed statements) (h' : WellFormed others) :
    WellFormed (statements ++ others) where
  proper := h.proper.append h'.proper
  ends := by
    intro e he
    simp only [collect_append, List.mem_append] at he ⊢
    rcases he with he | he
    · exact ⟨.inl (h.ends e he).1, .inl (h.ends e he).2⟩
    · exact ⟨.inr (h'.ends e he).1, .inr (h'.ends e he).2⟩

/-- A statement that is no edge and has no body. -/
theorem single {statement : Statement} {span : Source.Span} (h : statement.IsProper)
    (hbody : statement.isComposite = false) (hedges : statement.edges = []) :
    WellFormed [⟨statement, span⟩] where
  proper := ⟨h, trivial⟩
  ends := by
    intro e he
    rw [edgesIn, collect_of_not_composite hbody, hedges] at he
    cases he

/-- A composite with a well-formed body. -/
theorem composite {head : NodeDecl} {body : List (Located Statement)} {span : Source.Span}
    (hhead : head.IsProper) (hshape : head.shape = .composite) (hbody : WellFormed body) :
    WellFormed [⟨.composite head body, span⟩] where
  proper := ⟨⟨hhead, hshape, hbody.proper⟩, trivial⟩
  ends := by
    intro e he
    simp only [collect_composite, Statement.edges, Statement.names, collect_nil, List.append_nil,
      List.nil_append, List.singleton_append] at he ⊢
    have hends := hbody.ends e he
    exact ⟨List.mem_cons_of_mem _ hends.1, List.mem_cons_of_mem _ hends.2⟩

end WellFormed

/-! ### Chains -/

namespace Chain

/-- Holds for chains of nodes that can be written. -/
def IsProper : Chain → Prop
  | first node => node.value.IsProper
  | more chain _ node => chain.IsProper ∧ node.value.IsProper

private theorem statementsBefore_eq_append (chain : Chain) (rest : List (Located Statement)) :
    chain.statementsBefore rest = chain.statements ++ rest := by
  induction chain generalizing rest with
  | first node => rfl
  | more chain link node ih =>
    rw [statements, statementsBefore, statementsBefore, ih, ih, List.append_assoc]
    rfl

/-- A chain with one more node has the statements of the chain, and then the edge and the node. -/
theorem statements_more (chain : Chain) (link : Located LinkDecl) (node : Located NodeDecl) :
    (more chain link node).statements =
      chain.statements ++
        [⟨.edge (chain.edgeTo link.value node.value), link.span⟩, ⟨.node node.value, node.span⟩] := by
  rw [statements, statementsBefore, statementsBefore_eq_append]

/-- The statements of a chain declare its last node. -/
theorem last_mem_namesIn (chain : Chain) : chain.last.id ∈ namesIn chain.statements := by
  cases chain with
  | first node => exact List.mem_singleton_self _
  | more chain link node =>
    rw [statements_more, namesIn, collect_append]
    exact List.mem_append_right _ (List.mem_singleton_self _)

/-- The statements of a chain declare the nodes at the ends of all of its edges. -/
theorem wellFormed_statements (chain : Chain) (h : chain.IsProper) :
    WellFormed chain.statements := by
  induction chain with
  | first node => exact .single h rfl rfl
  | more chain link node ih =>
    obtain ⟨hchain, hnode⟩ := h
    have hwell := ih hchain
    rw [statements_more]
    refine ⟨hwell.proper.append ⟨trivial, hnode, trivial⟩, fun e he ↦ ?_⟩
    simp only [collect_append, List.mem_append] at he ⊢
    rcases he with he | he
    · exact ⟨.inl (hwell.ends e he).1, .inl (hwell.ends e he).2⟩
    · obtain rfl := List.mem_singleton.1 he
      exact ⟨.inl chain.last_mem_namesIn, .inr (List.mem_singleton_self _)⟩

end Chain

end BlockDiagram
