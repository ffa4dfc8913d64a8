import BlockDiagram.Proofs.Document.Building

/-!
# Statements as instructions

Carrying out statements as a run of instructions, each of which registers one block at most. A
composite is an instruction that opens its body, the instructions of the body, and one that closes
it again; what the open bodies have placed so far is kept beside the builder. The run does what
building does (`build_eq_runAll`). Unlike that, it has a state between any two instructions, also
when an instruction fails later.
-/

namespace BlockDiagram.Builder

open Source (Located Span)

/-- A part of what a statement does. -/
inductive Instruction where
  /-- Registers a block, or merges it with what is known of it. -/
  | declare (node : NodeDecl) (span : Span)
  /-- Places a block whose body is not open. -/
  | place (id : BlockId) (span : Span)
  /-- Opens the body of a composite. -/
  | enter (id : BlockId) (span : Span)
  /-- Closes the body of a composite, and places the composite. -/
  | leave (id : BlockId)
  /-- Asks for a number of blocks. -/
  | reserve (count : Nat) (span : Span)
  /-- Registers and places a spacer. -/
  | spacer (composite : BlockId)
  /-- Applies a class to a block, which is registered for it if it is not known. -/
  | classify (id : BlockId) (name : String) (span : Span)
  /-- Carries out a statement that neither registers nor places blocks. -/
  | change (composite : BlockId) (statement : Statement) (span : Span)

/-- What is known after some of the instructions. -/
structure Progress where
  builder : Builder
  /-- The blocks that the open bodies have placed, in reverse order, the innermost body first. -/
  placing : List (List BlockId)

namespace Progress

/-- The state before the first instruction. -/
def start : Progress := ⟨.start, [[]]⟩

/-- Takes a step that has nothing to do with bodies. -/
def after (p : Progress) (step : Building Unit) : Except Fault Progress :=
  (step.run p.builder).map fun (_, b) ↦ ⟨b, p.placing⟩

/-- Takes a step in the innermost body. -/
def inside (p : Progress) (step : List BlockId → Building (List BlockId)) :
    Except Fault Progress :=
  ((step (p.placing.headD [])).run p.builder).map fun (children, b) ↦
    ⟨b, children :: p.placing.tail⟩

/-- Opens the body of a composite. -/
def enter (p : Progress) (id : BlockId) : Progress :=
  ⟨{ p.builder with enclosing := id :: p.builder.enclosing }, [] :: p.placing⟩

/-- Closes the body of a composite, which holds what the body has placed from now on. -/
def leave (p : Progress) (id : BlockId) : Progress :=
  let d := p.builder.document
  ⟨{ p.builder with
      document := d.setChildren id (d.children id ++ (p.placing.headD []).reverse)
      enclosing := p.builder.enclosing.tail },
    p.placing.tail⟩

end Progress

/-- Carries out one instruction. -/
def execute (limit : Nat) (p : Progress) : Instruction → Except Fault Progress
  | .declare node span => p.after (Builder.declare limit node span)
  | .place id span => do
    let p ← p.after (checkNotEnclosing id span)
    p.inside (Builder.place id)
  | .enter id span => return (← p.after (checkNotEnclosing id span)).enter id
  | .leave id => (p.leave id).inside (Builder.place id)
  | .reserve count span => p.after (Builder.reserve limit count span)
  | .spacer composite => p.inside (addSpacer composite)
  | .classify id name span => p.after (applyClass limit name span [id])
  | .change composite statement span =>
    p.inside fun children ↦ perform limit composite span children statement

/-- Carries out instructions in order. -/
def runAll (limit : Nat) (instructions : List Instruction) (p : Progress) :
    Except Fault Progress :=
  instructions.foldlM (execute limit) p

mutual

/-- The instructions of a statement in the body of `composite`. -/
def instructionsOf (composite : BlockId) (span : Span) : Statement → List Instruction
  | .node node => [.declare node span, .place node.id span]
  | .composite head body =>
    .declare head span :: .enter head.id span :: (program head.id body ++ [.leave head.id])
  | .space count => .reserve count span :: List.replicate count (.spacer composite)
  | .applyClass targets name => (targetsOf targets).map fun id ↦ .classify id name span
  | statement => [.change composite statement span]

/-- The instructions of statements in the body of `composite`. -/
def program (composite : BlockId) : List (Located Statement) → List Instruction
  | [] => []
  | ⟨statement, span⟩ :: statements =>
    instructionsOf composite span statement ++ program composite statements

end

/-! ### The run does what the statements say -/

variable {limit : Nat} {p : Progress} {b : Builder} {children : List BlockId}
  {outer : List (List BlockId)}

/-- After the first instruction the others are carried out. -/
theorem runAll_cons (i : Instruction) (is : List Instruction) :
    runAll limit (i :: is) p = (execute limit p i).bind (runAll limit is) := rfl

private theorem runAll_singleton (i : Instruction) : runAll limit [i] p = execute limit p i := by
  rw [runAll_cons]
  cases execute limit p i with
  | error fault => rfl
  | ok p' => rfl

/-- Instructions may be carried out in two turns. -/
theorem runAll_append (is is' : List Instruction) :
    runAll limit (is ++ is') p = (runAll limit is p).bind (runAll limit is') :=
  List.foldlM_append

/-- The progress behind a step in the innermost body. -/
def advanced (outer : List (List BlockId)) (result : Except Fault (List BlockId × Builder)) :
    Except Fault Progress :=
  result.map fun (children, b) ↦ ⟨b, children :: outer⟩

private theorem advanced_bind {α : Type} (m : Building α) (f : α → Building (List BlockId)) :
    advanced outer ((m >>= f).run b) =
      (m.run b).bind fun r ↦ advanced outer ((f r.1).run r.2) := by
  rw [StateT.run_bind]
  cases m.run b with
  | error fault => rfl
  | ok result => rfl

private theorem after_bind (p : Progress) (m : Building Unit)
    (f : Progress → Except Fault Progress) :
    (p.after m).bind f = (m.run p.builder).bind fun r ↦ f ⟨r.2, p.placing⟩ := by
  rw [Progress.after]
  cases m.run p.builder with
  | error fault => rfl
  | ok result => rfl

private theorem advanced_then {α : Type} (r : Except Fault (List BlockId × Builder))
    (f : Progress → Except Fault α) :
    (advanced outer r).bind f = r.bind fun r ↦ f ⟨r.2, r.1 :: outer⟩ := by
  cases r with
  | error fault => rfl
  | ok result => rfl

private theorem runAll_replicate_spacer (composite : BlockId) (count : Nat) :
    runAll limit (List.replicate count (.spacer composite)) ⟨b, children :: outer⟩ =
      advanced outer ((addSpacers composite count children).run b) := by
  induction count generalizing b children with
  | zero => rfl
  | succ count ih =>
    rw [List.replicate_succ, runAll_cons, addSpacers, advanced_bind]
    change (advanced outer ((addSpacer composite children).run b)).bind _ = _
    rw [advanced_then]
    exact congrArg _ (funext fun _ ↦ ih)

/-- A class is applied to one block after the other. -/
theorem run_applyClass_bind (name : String) (span : Span) (id : BlockId) (ids : List BlockId) :
    (applyClass limit name span (id :: ids)).run b =
      ((applyClass limit name span [id]).run b).bind fun (_, b') ↦
        (applyClass limit name span ids).run b' := by
  rw [run_applyClass_cons, run_applyClass_cons]
  split
  · rfl
  · rfl

private theorem runAll_map_classify (name : String) (span : Span) (ids : List BlockId)
    (placing : List (List BlockId)) :
    runAll limit (ids.map fun id ↦ .classify id name span) ⟨b, placing⟩ =
      ((applyClass limit name span ids).run b).map fun (_, b) ↦ ⟨b, placing⟩ := by
  induction ids generalizing b with
  | nil => rfl
  | cons id ids ih =>
    rw [List.map_cons, runAll_cons, run_applyClass_bind]
    change (Progress.after ⟨b, placing⟩ (applyClass limit name span [id])).bind _ = _
    rw [after_bind]
    cases (applyClass limit name span [id]).run b with
    | error fault => rfl
    | ok result => exact ih

/-- The instructions of a composite do what it says if those of its body do. -/
theorem runAll_composite {composite : BlockId} {head : NodeDecl}
    {body : List (Located Statement)} {span : Span}
    (hbody : ∀ b outer, runAll limit (program head.id body) ⟨b, [] :: outer⟩ =
      advanced outer ((performAll limit head.id [] body).run b)) :
    runAll limit (instructionsOf composite span (.composite head body)) ⟨b, children :: outer⟩ =
      advanced outer ((perform limit composite span children (.composite head body)).run b) := by
  rw [instructionsOf, perform, runAll_cons, advanced_bind]
  change (Progress.after ⟨b, children :: outer⟩ (declare limit head span)).bind _ = _
  rw [after_bind]
  refine congrArg _ (funext fun declared ↦ ?_)
  have henter (p : Progress) : execute limit p (.enter head.id span) =
      (p.after (checkNotEnclosing head.id span)).bind fun p ↦ .ok (p.enter head.id) := rfl
  rw [runAll_cons, advanced_bind, henter, after_bind]
  cases (checkNotEnclosing head.id span).run declared.2 with
  | error fault => rfl
  | ok checked =>
    dsimp only [Except.bind, Progress.enter]
    rw [runAll_append, hbody, advanced_then, advanced_bind, StateT.run_modify]
    dsimp only [pure, Except.pure]
    rw [Except.bind, advanced_bind]
    exact congrArg _ (funext fun inner ↦ runAll_singleton _)

/-- The instructions of a statement without a body do what it says. -/
theorem runAll_instructionsOf {statement : Statement} (h : statement.isComposite = false)
    (composite : BlockId) (span : Span) :
    runAll limit (instructionsOf composite span statement) ⟨b, children :: outer⟩ =
      advanced outer ((perform limit composite span children statement).run b) := by
  cases statement with
  | composite head body => cases h
  | node node =>
    rw [instructionsOf, perform, runAll_cons, advanced_bind]
    change (Progress.after ⟨b, children :: outer⟩ (declare limit node span)).bind _ = _
    rw [after_bind]
    refine congrArg _ (funext fun declared ↦ ?_)
    have hplace (p : Progress) : execute limit p (.place node.id span) =
        (p.after (checkNotEnclosing node.id span)).bind fun p ↦ p.inside (place node.id) := rfl
    rw [runAll_singleton, hplace, after_bind, advanced_bind]
    rfl
  | space count =>
    rw [instructionsOf, perform, runAll_cons, advanced_bind]
    change (Progress.after ⟨b, children :: outer⟩ (reserve limit count span)).bind _ = _
    rw [after_bind]
    exact congrArg _ (funext fun reserved ↦ runAll_replicate_spacer composite count)
  | applyClass targets name =>
    rw [instructionsOf, perform, advanced_bind, runAll_map_classify]
    cases (applyClass limit name span (targetsOf targets)).run b with
    | error fault => rfl
    | ok result => rfl
  | columns count | edge e | classDef name declarations | applyStyles targets declarations
  | title text | description text => exact runAll_singleton _

/-- The instructions of statements do what the statements say. -/
theorem runAll_program (composite : BlockId) (ss : List (Located Statement)) :
    runAll limit (program composite ss) ⟨b, children :: outer⟩ =
      advanced outer ((performAll limit composite children ss).run b) := by
  induction ss using statements_induction generalizing composite b children outer with
  | nil => rfl
  | composite head body span ss ihbody ih =>
    rw [program, performAll, runAll_append, runAll_composite fun b outer ↦ ihbody head.id,
      advanced_then, advanced_bind]
    exact congrArg _ (funext fun _ ↦ ih composite)
  | other statement span ss hother ih =>
    rw [program, performAll, runAll_append, runAll_instructionsOf hother, advanced_then,
      advanced_bind]
    exact congrArg _ (funext fun _ ↦ ih composite)

/-- The document that has been built when the last instruction is carried out. -/
def Progress.document (p : Progress) : Document :=
  let d := p.builder.document
  d.setChildren BlockId.root (d.children BlockId.root ++ (p.placing.headD []).reverse)

/-- A document is built by the instructions of its statements. -/
theorem build_eq_runAll (limit : Nat) (ss : List (Located Statement)) :
    build limit ss = (runAll limit (program BlockId.root ss) .start).map Progress.document := by
  rw [Progress.start, runAll_program, build]
  simp only [bind, Except.bind]
  cases (performAll limit BlockId.root [] ss).run start with
  | error fault => rfl
  | ok result => rfl

end BlockDiagram.Builder
