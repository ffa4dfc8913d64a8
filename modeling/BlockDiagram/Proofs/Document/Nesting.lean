import BlockDiagram.Proofs.Document.Invariants
import BlockDiagram.Proofs.Document.Parsed

/-!
# Blocks inside themselves

A node or a composite that is inside a composite of its own name is refused (`build_selfNesting`).
The root does not count among the composites around a statement, although it holds what is not in
the body of another one: a source that names it is accepted, and there the root may hold itself
(`mem_children_root`).
-/

namespace BlockDiagram

open Source (Located Span)
open Grammar (Production nodeRules)

mutual

/-- The ids in a statement that name one of the composites around them, in order, each with its
place. The statement itself is inside those in `above`. -/
def Statement.selfNested (above : List BlockId) (span : Span) : Statement → List (BlockId × Span)
  | .node node => if node.id ∈ above then [(node.id, span)] else []
  | .composite head body =>
    (if head.id ∈ above then [(head.id, span)] else []) ++ selfNestedIn (head.id :: above) body
  | _ => []

/-- The ids in statements that name one of the composites around them, in order, each with its
place. The statements themselves are inside those in `above`. -/
def selfNestedIn (above : List BlockId) : List (Located Statement) → List (BlockId × Span)
  | [] => []
  | ⟨statement, span⟩ :: statements =>
    statement.selfNested above span ++ selfNestedIn above statements

end

/-- Nothing is found where the composites around have other names. -/
theorem found_eq_nil_iff {above : List BlockId} {id : BlockId} {span : Span} :
    (if id ∈ above then [(id, span)] else []) = [] ↔ id ∉ above := by
  split
  · next h => simp [h]
  · next h => simp [h]

/-- One more composite around statements counts where they name it. -/
theorem selfNestedIn_append_singleton_eq_nil_iff {ss : List (Located Statement)}
    {above : List BlockId} {id : BlockId} :
    selfNestedIn (above ++ [id]) ss = [] ↔ selfNestedIn above ss = [] ∧ id ∉ namesIn ss := by
  induction ss using statements_induction generalizing above with
  | nil => simp [selfNestedIn]
  | composite head body span statements ihbody ih =>
    have hbody := @ihbody (head.id :: above)
    rw [List.cons_append] at hbody
    simp only [selfNestedIn, Statement.selfNested, namesIn_composite, List.append_eq_nil_iff,
      found_eq_nil_iff, hbody, ih]
    simp only [List.mem_append, List.mem_cons, List.not_mem_nil, or_false, not_or, @eq_comm _ id]
    tauto
  | other statement span statements hother ih =>
    have hstatement : statement.selfNested (above ++ [id]) span = [] ↔
        statement.selfNested above span = [] ∧ id ∉ statement.names := by
      cases statement with
      | composite head body => cases hother
      | node node => simp [Statement.selfNested, Statement.names, eq_comm]
      | _ => simp [Statement.selfNested, Statement.names]
    simp only [selfNestedIn, collect_of_not_composite hother, List.append_eq_nil_iff, hstatement, ih,
      List.mem_append, not_or]
    tauto

namespace Builder

variable {α β : Type} {b : Builder} {above above' above'' : List BlockId}
  {found found' : List (BlockId × Span)}

/-- Holds for steps with the composites in `above` under way in front of them and those in `above'`
behind them. Where blocks are found inside themselves a step does not succeed, and if it fails for
that reason it is for the first one found. -/
structure Finds (m : Building α) (above : List BlockId) (found : List (BlockId × Span))
    (above' : List BlockId) : Prop where
  ok {b b' : Builder} {x : α} : b.enclosing = above → m.run b = .ok (x, b') →
    b'.enclosing = above' ∧ found = []
  error {b : Builder} {id : BlockId} {span : Span} : b.enclosing = above →
    m.run b = .error (.nestedInItself id span) → found.head? = some (id, span)

private theorem Finds.bind {m : Building α} {f : α → Building β} (hm : Finds m above found above')
    (hf : ∀ x, Finds (f x) above' found' above'') :
    Finds (m >>= f) above (found ++ found') above'' where
  ok henclosing h := by
    obtain ⟨x, b₁, hfirst, hsecond⟩ := run_bind_ok_iff.1 h
    obtain ⟨henclosing', rfl⟩ := hm.ok henclosing hfirst
    exact (hf x).ok henclosing' hsecond
  error henclosing h := by
    rcases run_bind_error_iff.1 h with hfirst | ⟨x, b₁, hfirst, hsecond⟩
    · rw [List.head?_append, hm.error henclosing hfirst]
      rfl
    · obtain ⟨henclosing', rfl⟩ := hm.ok henclosing hfirst
      exact (hf x).error henclosing' hsecond

private theorem finds_pure (x : α) : Finds (pure x) above [] above where
  ok henclosing h := by
    cases h
    exact ⟨henclosing, rfl⟩
  error _ h := by cases h

private theorem finds_modify {f : Builder → Builder}
    (hf : ∀ b, b.enclosing = above → (f b).enclosing = above') :
    Finds (modify f) above [] above' where
  ok henclosing h := by
    cases h
    exact ⟨hf _ henclosing, rfl⟩
  error _ h := by cases h

private theorem finds_modifyDocument (f : Document → Document) :
    Finds (modifyDocument f) above [] above :=
  finds_modify fun _ h ↦ h

/-- A block is found if its composite is under way. -/
theorem finds_checkNotEnclosing (id : BlockId) (span : Span) :
    Finds (checkNotEnclosing id span) above (if id ∈ above then [(id, span)] else []) above where
  ok henclosing h := by
    obtain ⟨rfl, hid⟩ := checkNotEnclosing_cases h
    rw [henclosing] at hid
    exact ⟨henclosing, if_neg hid⟩
  error henclosing h := by
    rw [checkNotEnclosing, run_bind_error_iff] at h
    rcases h with h | ⟨_, _, hget, h⟩
    · cases h
    · cases hget
      split at h
      · next hcontains =>
        cases h
        rw [henclosing] at hcontains
        rw [if_pos (List.contains_iff_mem.1 hcontains)]
        rfl
      · cases h

/-- Invariants about the composites under way do not look at blocks. -/
theorem ignoresBlocks_enclosing (above : List BlockId) :
    IgnoresBlocks fun b ↦ b.enclosing = above :=
  fun _ _ _ _ henclosing h ↦ henclosing.trans h

/-- A step that keeps the composites under way, and fails for other reasons, finds nothing. -/
theorem Respects.finds {m : Building α}
    (h : Respects (fun b ↦ b.enclosing = above) (fun fault ↦ fault.code ≠ .selfNesting) m) :
    Finds m above [] above where
  ok henclosing hrun := ⟨h.ok henclosing hrun, rfl⟩
  error henclosing hrun := absurd rfl (h.error henclosing hrun)

/-- What a statement without a body finds. -/
theorem finds_perform {limit : Nat} {composite : BlockId} {span : Span} {children : List BlockId}
    {statement : Statement} (hstatement : statement.isComposite = false) :
    Finds (perform limit composite span children statement) above
      (statement.selfNested above span) above := by
  cases statement with
  | composite head body => cases hstatement
  | node node =>
    have hdeclare : Finds (declare limit node span) above [] above :=
      (respects_declare (ignoresBlocks_enclosing above).tolerates (fun _ h ↦ h.ne) node).finds
    have hplace : Finds (place node.id children) above [] above :=
      (respects_place (ignoresBlocks_enclosing above).tolerates node.id children).finds
    have hfound := hdeclare.bind fun _ ↦
      (finds_checkNotEnclosing node.id span).bind fun _ ↦ hplace
    rwa [List.nil_append, List.append_nil] at hfound
  | _ =>
    refine (respects_perform (ignoresBlocks_enclosing above).tolerates (fun e _ ↦ ?_)
      (List.forall_mem_nil _) (fun _ h ↦ h.ne) rfl fun count _ ↦
        respects_addSpacers (ignoresBlocks_enclosing above) composite count children).finds
    exact respects_modify fun _ h ↦ h

/-- What statements find. -/
theorem finds_performAll {limit : Nat} {composite : BlockId} {children : List BlockId}
    (statements : List (Located Statement)) :
    Finds (performAll limit composite children statements) above (selfNestedIn above statements)
      above := by
  induction statements using statements_induction generalizing above composite children with
  | nil =>
    rw [performAll]
    exact finds_pure children
  | composite head body span statements ihbody ih =>
    rw [performAll, selfNestedIn]
    refine Finds.bind ?_ fun _ ↦ ih
    rw [perform, Statement.selfNested]
    have hdeclare : Finds (declare limit head span) above [] above :=
      (respects_declare (ignoresBlocks_enclosing above).tolerates (fun _ h ↦ h.ne) head).finds
    have hplace : Finds (place head.id children) above [] above :=
      (respects_place (ignoresBlocks_enclosing above).tolerates head.id children).finds
    -- The composite is open while its body is carried out, and no longer.
    have hopen : Finds (modify fun b ↦ { b with enclosing := head.id :: b.enclosing } : Building _)
        above [] (head.id :: above) := finds_modify fun b h ↦ by rw [← h]
    have hclose : Finds (modify fun b ↦ { b with enclosing := b.enclosing.tail } : Building _)
        (head.id :: above) [] above := finds_modify fun b h ↦ by rw [h, List.tail_cons]
    refine hdeclare.bind fun _ ↦ (finds_checkNotEnclosing head.id span).bind fun _ ↦ ?_
    rw [← List.nil_append (selfNestedIn _ body)]
    refine hopen.bind fun _ ↦ ?_
    rw [← List.append_nil (selfNestedIn _ body)]
    refine ihbody.bind fun inner ↦ ?_
    exact (finds_modifyDocument _).bind fun _ ↦ hclose.bind fun _ ↦ hplace
  | other statement span statements hother ih =>
    rw [performAll, selfNestedIn]
    exact (finds_perform hother).bind fun _ ↦ ih

/-- What building a document finds. -/
theorem build_cases (limit : Nat) (ss : List (Located Statement)) :
    (∀ d, build limit ss = .ok d → selfNestedIn [] ss = []) ∧
      ∀ id span, build limit ss = .error (.nestedInItself id span) →
        (selfNestedIn [] ss).head? = some (id, span) := by
  have hfinds : Finds (performAll limit BlockId.root [] ss) [] (selfNestedIn [] ss) [] :=
    finds_performAll ss
  refine ⟨fun d h ↦ ?_, fun id span h ↦ hfinds.error rfl (run_of_build_error h)⟩
  obtain ⟨children, b, hrun, -⟩ := run_of_build_ok h
  exact (hfinds.ok rfl hrun).2

private theorem exists_nestedInItself {fault : Fault} (h : fault.code = .selfNesting) :
    ∃ id span, fault = .nestedInItself id span := by
  cases fault with
  | nestedInItself id span => exact ⟨id, span, rfl⟩
  | unexpected token expected =>
    rw [Fault.code] at h
    split at h <;> cases h
  | _ => cases h

/-- Statements that meet no other fault are refused exactly where one of them is inside a composite
of its own name, and then for the first of them. That is also where one of them is inside a composite
of its own name or inside the root, unless one of them names the root and nothing else is wrong. What
is accepted without naming the root is a finite tree, and the walk over it ends. -/
theorem build_selfNesting {limit : Nat} {ss : List (Located Statement)}
    (hother : ∀ fault, build limit ss = .error fault → fault.code = .selfNesting) :
    ((∃ fault, build limit ss = .error fault) ↔ selfNestedIn [] ss ≠ []) ∧
      (∀ fault, build limit ss = .error fault → ∃ id span,
        (selfNestedIn [] ss).head? = some (id, span) ∧ fault = .nestedInItself id span) ∧
      (((∃ fault, build limit ss = .error fault) ↔ selfNestedIn [BlockId.root] ss ≠ []) ↔
        BlockId.root ∉ namesIn ss ∨ selfNestedIn [] ss ≠ []) ∧
      ∀ d, build limit ss = .ok d → AllProper ss → BlockId.root ∉ namesIn ss →
        (∀ id, ¬ d.Encloses id id) ∧ d.Visits (d.children BlockId.root) d.walk ∧
          ∃ levels t, t.id = BlockId.root ∧ d.Shows levels t := by
  obtain ⟨hok, herror⟩ := build_cases limit ss
  have hfault : ∀ fault, build limit ss = .error fault → ∃ id span,
      (selfNestedIn [] ss).head? = some (id, span) ∧ fault = .nestedInItself id span := by
    intro fault hbuild
    obtain ⟨id, span, rfl⟩ := exists_nestedInItself (hother fault hbuild)
    exact ⟨id, span, herror id span hbuild, rfl⟩
  have hiff : (∃ fault, build limit ss = .error fault) ↔ selfNestedIn [] ss ≠ [] := by
    constructor
    · rintro ⟨fault, hbuild⟩ hnil
      obtain ⟨id, span, hhead, -⟩ := hfault fault hbuild
      rw [hnil] at hhead
      cases hhead
    · intro hne
      cases hbuild : build limit ss with
      | error fault => exact ⟨fault, rfl⟩
      | ok d => exact absurd (hok d hbuild) hne
  have hroot := @selfNestedIn_append_singleton_eq_nil_iff ss [] BlockId.root
  rw [List.nil_append] at hroot
  refine ⟨hiff, hfault, ?_, fun d hbuild hproper hnames ↦ ?_⟩
  · rw [hiff, ne_eq, ne_eq, hroot]
    tauto
  · obtain ⟨mentions, h⟩ := describes_of_build hproper hnames hbuild
    obtain ⟨t, htop, ht⟩ := h.listed.exists_shows
    exact ⟨h.listed.not_transGen_self, h.listed.visits_walk, _, t, htop, ht⟩

/-- A composite that holds a node of its own name. -/
def nestedOnce : List (Located Statement) :=
  [⟨.composite { id := "a", shape := .composite } [⟨.node { id := "a" }, Span.between 8 9⟩],
    Span.between 0 13⟩]

/-- The node is what the composite is refused for. -/
theorem error_of_nestedOnce :
    build 9 nestedOnce = .error (.nestedInItself "a" (Span.between 8 9)) := by
  have hcode : (match build 9 nestedOnce with
      | .error fault => fault.code = .selfNesting
      | .ok _ => false : Bool) = true := by
    decide +kernel
  have hfirst : (selfNestedIn [] nestedOnce).head? = some ("a", Span.between 8 9) := by
    decide +kernel
  cases hbuild : build 9 nestedOnce with
  | ok d =>
    rw [hbuild] at hcode
    cases hcode
  | error fault =>
    rw [hbuild] at hcode
    have hother : ∀ fault, build 9 nestedOnce = .error fault → fault.code = .selfNesting := by
      intro fault' h
      rw [hbuild] at h
      cases h
      exact of_decide_eq_true hcode
    obtain ⟨id, span, hhead, rfl⟩ := (build_selfNesting hother).2.1 fault hbuild
    rw [hfirst] at hhead
    cases hhead
    rfl

end Builder

namespace Document

/-- A source that names the root in the root. -/
def rootInRoot : String := "block-beta root"

/-- The rules that derive it. -/
def rootInRootRules : List Production :=
  [.start] ++ nodeRules ++ [.documentEnd]

/-- The root is accepted inside itself. -/
theorem mem_children_root : ∃ ss d, statements rootInRoot = .ok ss ∧
    Builder.build 9 ss = .ok d ∧ selfNestedIn [BlockId.root] ss ≠ [] ∧
      BlockId.root ∈ d.children BlockId.root := by
  have hdecide : ((statementsAlong rootInRootRules rootInRoot).bind fun ss ↦
      (Builder.build 9 ss).toOption.map fun d ↦
        ((selfNestedIn [BlockId.root] ss).map Prod.fst, d.children BlockId.root)) =
          some ([BlockId.root], [BlockId.root]) := by
    decide +kernel
  obtain ⟨ss, d, hss, hbuild, -, hresult⟩ := parse_of_along hdecide
  obtain ⟨hnested, hchildren⟩ := Prod.mk.inj hresult
  refine ⟨ss, d, hss, hbuild, ?_, hchildren ▸ List.mem_singleton_self _⟩
  intro hnil
  rw [hnil] at hnested
  cases hnested

end Document

end BlockDiagram
