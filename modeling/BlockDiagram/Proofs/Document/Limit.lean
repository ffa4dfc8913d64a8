import BlockDiagram.Proofs.Document.Program

/-!
# The limit on blocks

A limit changes nothing but where building ends. Every instruction asks for as many blocks as it
registers, or for those that spacers behind it will register (`Reserved`), and fails if there are
more than the limit leaves (`Asks`). So a document is built under each limit that it keeps, no other
limit lets its statements through, and no more blocks are ever registered on the way
(`parse_limit`).
-/

namespace BlockDiagram

open Source (Located Span)

namespace Document

variable {d : Document}

private theorem size_insertBlock {b : Block} (h : d.contains b.id = false) :
    (d.insertBlock b).size = d.size + 1 := by
  have hkeys : d.blocks.contains b.id = false := h
  simp only [insertBlock, h, Bool.false_eq_true, ite_false, size, OrderedMap.size,
    OrderedMap.keys_insert, hkeys, Array.size_push]

private theorem size_modifyBlock (id : BlockId) (f : Block → Block) :
    (d.modifyBlock id f).size = d.size :=
  congrArg Array.size (OrderedMap.keys_modify _ _ _)

/-- To put blocks inside another one leaves their number as it was. -/
theorem size_setChildren (id : BlockId) (children : List BlockId) :
    (d.setChildren id children).size = d.size :=
  size_modifyBlock id _

end Document

/-- Holds for the statements that neither register nor place blocks. -/
def Statement.isQuiet : Statement → Bool
  | .node _ | .composite _ _ | .space _ | .applyClass _ _ => false
  | _ => true

namespace Builder

variable {limit : Nat} {b b' : Builder} {p p' : Progress}

/-! ### What instructions ask for -/

/-- The number of blocks that are registered, the root included. -/
def Progress.size (p : Progress) : Nat :=
  p.builder.document.size

private theorem Progress.size_start : Progress.start.size = 1 := by
  decide +kernel

/-- Every limit leaves room for the root. -/
theorem Progress.size_start_le (limit : Nat) : Progress.start.size + 0 ≤ limit + 1 :=
  Nat.le_trans (Nat.le_of_eq Progress.size_start) (Nat.le_add_left 1 limit)

/-- The statement that an instruction belongs to. -/
def Instruction.span : Instruction → Span
  | .declare _ span | .place _ span | .enter _ span | .reserve _ span | .classify _ _ span
  | .change _ _ span => span
  | .leave _ | .spacer _ => .emptyAt 0

/-- An instruction that asks for blocks and registers some: it fails if there are more than the
limit leaves, and apart from that the limit makes no difference. -/
structure Asks (p : Progress) (i : Instruction) (asked added : Nat)
    (result : Except Fault Progress) : Prop where
  added_le : added ≤ 1
  execute_eq : ∀ limit, execute limit p i =
    if limit - (p.size - 1) < asked then .error (.tooManyBlocks limit i.span) else result
  size_eq : ∀ p', result = .ok p' → p'.size = p.size + added

private theorem asks_reserve (count : Nat) (span : Span) :
    Asks p (.reserve count span) count 0 (.ok p) where
  added_le := Nat.zero_le 1
  execute_eq limit := by
    rw [execute, Progress.after, run_reserve]
    split
    · next h => exact (if_pos h).symm
    · next h => exact (if_neg h).symm
  size_eq := by
    rintro p' ⟨⟩
    rfl

/-- An instruction that does the same under every limit. -/
theorem Asks.of_forall {i : Instruction} {added : Nat} {result : Except Fault Progress}
    (hadded : added ≤ 1) (h : ∀ limit, execute limit p i = result)
    (hsize : ∀ p', result = .ok p' → p'.size = p.size + added) : Asks p i 0 added result where
  added_le := hadded
  execute_eq limit := (h limit).trans (if_neg (Nat.not_lt_zero _)).symm
  size_eq := hsize

/-- A step that keeps or adds blocks, taken in the innermost body. -/
theorem size_of_inside {step : List BlockId → Building (List BlockId)} {added : Nat}
    (hstep : ∀ children b children' b', (step children).run b = .ok (children', b') →
      b'.document.size = b.document.size + added)
    (h : p.inside step = .ok p') : p'.size = p.size + added := by
  obtain ⟨⟨children, b⟩, hrun, rfl⟩ := map_eq_ok_iff.1 h
  exact hstep _ _ _ _ hrun

/-- A spacer is one more block. -/
theorem size_of_addSpacer {composite : BlockId} {children children' : List BlockId}
    (h : (addSpacer composite children).run b = .ok (children', b')) :
    b'.document.size = b.document.size + 1 := by
  obtain ⟨n, hfree, hplace⟩ := addSpacer_cases h
  rw [(place_cases hplace).1]
  exact Document.size_insertBlock hfree

private theorem asks_spacer (composite : BlockId) :
    Asks p (.spacer composite) 0 1 (p.inside (addSpacer composite)) :=
  .of_forall (Nat.le_refl 1) (fun _ ↦ rfl) fun _ ↦
    size_of_inside fun _ _ _ _ ↦ size_of_addSpacer

/-- An instruction that registers a block unless it is known. -/
theorem Asks.of_registration {i : Instruction} (id : BlockId) (known new : Builder)
    (h : ∀ limit, execute limit p i =
      if p.builder.document.contains id then .ok ⟨known, p.placing⟩
      else if limit - (p.size - 1) < 1 then .error (.tooManyBlocks limit i.span)
      else .ok ⟨new, p.placing⟩)
    (hknown : known.document.size = p.size)
    (hnew : p.builder.document.contains id = false → new.document.size = p.size + 1) :
    ∃ asked result, Asks p i asked asked result := by
  cases hcontains : p.builder.document.contains id with
  | true =>
    refine ⟨0, .ok ⟨known, p.placing⟩, .of_forall (Nat.zero_le 1) (fun limit ↦ ?_) ?_⟩
    · rw [h, if_pos hcontains]
    · rintro p' ⟨⟩
      exact hknown
  | false =>
    refine ⟨1, .ok ⟨new, p.placing⟩, Nat.le_refl 1, fun limit ↦ ?_, ?_⟩
    · rw [h, if_neg (Bool.eq_false_iff.1 hcontains)]
    · rintro p' ⟨⟩
      exact hnew hcontains

private theorem asks_declare (node : NodeDecl) (span : Span) :
    ∃ asked result, Asks p (.declare node span) asked asked result := by
  let d := p.builder.document
  refine Asks.of_registration node.id
    { p.builder with document := d.modifyBlock node.id (merge node) }
    { p.builder with document := d.insertBlock (blockOf node) }
    (fun limit ↦ ?_) (Document.size_modifyBlock _ _) fun h ↦ Document.size_insertBlock h
  rw [execute, Progress.after, run_declare, Progress.size]
  split
  · rfl
  · split
    · rfl
    · rfl

private theorem asks_classify (id : BlockId) (name : String) (span : Span) :
    ∃ asked result, Asks p (.classify id name span) asked asked result := by
  let d := p.builder.document
  refine Asks.of_registration id
    { p.builder with document := d.modifyBlock id (·.addClass name) }
    { p.builder with
      document := (d.insertBlock (Block.ofShape id .unknown)).modifyBlock id (·.addClass name) }
    (fun limit ↦ ?_) (Document.size_modifyBlock _ _)
    fun h ↦ (Document.size_modifyBlock _ _).trans (Document.size_insertBlock h)
  rw [execute, Progress.after, run_applyClass_cons, Progress.size]
  cases hcontains : p.builder.document.contains id with
  | true =>
    rw [Document.insertBlock_of_contains hcontains rfl]
    rfl
  | false =>
    simp only [true_and, Bool.false_eq_true, if_false]
    split
    · rfl
    · rfl

private theorem size_of_after {step : Building Unit}
    (hstep : ∀ b b', step.run b = .ok ((), b') → b'.document.size = b.document.size)
    (h : p.after step = .ok p') : p'.size = p.size := by
  obtain ⟨⟨⟨⟩, b⟩, hrun, rfl⟩ := map_eq_ok_iff.1 h
  exact hstep _ _ hrun

private theorem size_of_place {id : BlockId} {children children' : List BlockId}
    (h : (place id children).run b = .ok (children', b')) :
    b'.document.size = b.document.size := by
  rw [(place_cases h).1]

private theorem size_of_inside_place {id : BlockId} (h : p.inside (place id) = .ok p') :
    p'.size = p.size := by
  rw [size_of_inside (fun _ _ _ _ hplace ↦ (size_of_place hplace).trans (Nat.add_zero _).symm) h,
    Nat.add_zero]

private theorem size_of_checked {id : BlockId} {span : Span}
    (h : p.after (checkNotEnclosing id span) = .ok p') : p'.size = p.size :=
  size_of_after (fun _ _ hcheck ↦ by rw [(checkNotEnclosing_cases hcheck).1]) h

/-- A quiet statement does the same under every limit. -/
theorem perform_eq_of_isQuiet {statement : Statement} (h : statement.isQuiet = true)
    (limit limit' : Nat) (composite : BlockId) (span : Span) (children : List BlockId) :
    perform limit composite span children statement =
      perform limit' composite span children statement := by
  cases statement with
  | node | composite | space | applyClass => cases h
  | _ => rw [perform, perform]

private theorem size_of_applyStyles {declarations : List String} {span : Span} {ids : List BlockId}
    {u : Unit} (h : (applyStyles declarations span ids).run b = .ok (u, b')) :
    b'.document.size = b.document.size := by
  obtain ⟨d, rfl, hd⟩ := applyStyles_induction (P := fun d d' ↦ d'.size = d.size) h (fun _ ↦ rfl)
    fun id d d' hrest ↦ hrest.trans (Document.size_modifyBlock _ _)
  exact hd

/-- A quiet statement registers nothing. -/
theorem size_of_perform {statement : Statement} (hquiet : statement.isQuiet = true)
    {composite : BlockId} {span : Span} {children children' : List BlockId}
    (h : (perform limit composite span children statement).run b = .ok (children', b')) :
    b'.document.size = b.document.size := by
  cases statement with
  | node | composite | space | applyClass => cases hquiet
  | columns count =>
    cases h
    exact Document.size_modifyBlock _ _
  | classDef name declarations =>
    obtain ⟨normal, -, rfl, rfl⟩ := classDef_cases h
    rfl
  | applyStyles targets declarations =>
    obtain ⟨normal, -, happly, rfl⟩ := applyStyles_cases h
    exact size_of_applyStyles happly
  | edge e | title text | description text =>
    cases h
    rfl

/-! ### Programs -/

/-- Holds for instructions that ask for what they register. -/
def Instruction.isPlain : Instruction → Bool
  | .reserve _ _ | .spacer _ => false
  | .change _ statement _ => statement.isQuiet
  | _ => true

/-- A plain instruction asks for the blocks that it registers. -/
theorem exists_asks {i : Instruction} (h : i.isPlain = true) :
    ∃ asked result, Asks p i asked asked result := by
  cases i with
  | reserve | spacer => cases h
  | declare node span => exact asks_declare node span
  | classify id name span => exact asks_classify id name span
  | place id span =>
    refine ⟨0, (p.after (checkNotEnclosing id span)).bind fun p ↦ p.inside (place id),
      .of_forall (Nat.zero_le 1) (fun _ ↦ rfl) fun p' h ↦ ?_⟩
    obtain ⟨checked, hcheck, hplace⟩ := bind_eq_ok_iff.1 h
    rw [size_of_inside_place hplace, size_of_checked hcheck, Nat.add_zero]
  | enter id span =>
    refine ⟨0, (p.after (checkNotEnclosing id span)).map fun p ↦ p.enter id,
      .of_forall (Nat.zero_le 1) (fun _ ↦ rfl) fun p' h ↦ ?_⟩
    obtain ⟨checked, hcheck, rfl⟩ := map_eq_ok_iff.1 h
    have hsize := size_of_checked hcheck
    exact hsize
  | leave id =>
    refine ⟨0, (p.leave id).inside (place id),
      .of_forall (Nat.zero_le 1) (fun _ ↦ rfl) fun p' hleave ↦ ?_⟩
    exact (size_of_inside_place hleave).trans (Document.size_setChildren _ _)
  | change composite statement span =>
    refine ⟨0, p.inside fun children ↦ perform 0 composite span children statement,
      .of_forall (Nat.zero_le 1) (fun limit ↦ ?_) fun p' hchange ↦ ?_⟩
    · rw [execute]
      exact congrArg p.inside (funext fun children ↦ perform_eq_of_isQuiet h limit 0 _ _ children)
    · exact size_of_inside (fun _ _ _ _ ↦ size_of_perform h) hchange

/-- Holds for instructions that register no more than is asked for: `count` spacers have been asked
for already, and any others come behind an instruction that asks for them. -/
inductive Reserved : Nat → List Instruction → Prop where
  | nil : Reserved 0 []
  | spacer {count : Nat} {composite : BlockId} {is : List Instruction} (h : Reserved count is) :
      Reserved (count + 1) (.spacer composite :: is)
  | reserve {count : Nat} {span : Span} {is : List Instruction} (h : Reserved count is) :
      Reserved 0 (.reserve count span :: is)
  | plain {i : Instruction} {is : List Instruction} (hi : i.isPlain = true) (h : Reserved 0 is) :
      Reserved 0 (i :: is)

variable {count : Nat} {i : Instruction} {is is' : List Instruction}

private theorem Reserved.append (h : Reserved count is) (h' : Reserved 0 is') :
    Reserved count (is ++ is') := by
  induction h with
  | nil => exact h'
  | spacer h ih => exact .spacer ih
  | reserve h ih => exact .reserve ih
  | plain hi h ih => exact .plain hi ih

private theorem reserved_replicate_spacer (composite : BlockId) (count : Nat) :
    Reserved count (List.replicate count (.spacer composite)) := by
  induction count with
  | zero => exact .nil
  | succ count ih => exact .spacer ih

private theorem reserved_of_isPlain (h : ∀ i ∈ is, i.isPlain = true) : Reserved 0 is := by
  induction is with
  | nil => exact .nil
  | cons i is ih =>
    obtain ⟨hi, his⟩ := List.forall_mem_cons.1 h
    exact .plain hi (ih his)

/-- The spacers of a program are asked for where they are registered. -/
theorem reserved_program (composite : BlockId) (ss : List (Located Statement)) :
    Reserved 0 (program composite ss) := by
  induction ss using statements_induction generalizing composite with
  | nil => exact .nil
  | composite head body span ss ihbody ih =>
    have hbody := (ihbody head.id).append (.plain (i := .leave head.id) rfl .nil)
    exact Reserved.append (.plain rfl (.plain rfl hbody)) (ih composite)
  | other statement span ss hother ih =>
    refine Reserved.append ?_ (ih composite)
    cases statement with
    | composite head body => cases hother
    | space count => exact .reserve (reserved_replicate_spacer composite count)
    | node node => exact .plain rfl (.plain rfl .nil)
    | applyClass targets name =>
      refine reserved_of_isPlain fun i hi ↦ ?_
      obtain ⟨id, -, rfl⟩ := List.mem_map.1 hi
      rfl
    | _ => exact .plain rfl .nil

/-! ### Runs -/

/-- What the first instruction asks for and what it registers make up for each other. -/
theorem Reserved.exists_asks_of_cons (h : Reserved count (i :: is)) (p : Progress) :
    ∃ asked added result count', Asks p i asked added result ∧ Reserved count' is ∧
      count + asked = added + count' ∧ (asked = 0 ∨ count = 0) := by
  cases h with
  | spacer h => exact ⟨0, 1, _, _, asks_spacer _, h, by omega, .inl rfl⟩
  | reserve h => exact ⟨_, 0, _, _, asks_reserve _ _, h, rfl, .inr rfl⟩
  | plain hi h =>
    obtain ⟨asked, result, hasks⟩ := exists_asks (p := p) hi
    exact ⟨asked, asked, result, 0, hasks, h, Nat.add_comm _ _, .inr rfl⟩

/-- The first step of a run that succeeds leaves room for what it asks for. -/
theorem Asks.of_runAll {asked added : Nat} {result : Except Fault Progress}
    (hasks : Asks p i asked added result) (hrun : runAll limit (i :: is) p = .ok p') :
    asked ≤ limit - (p.size - 1) ∧ ∃ p₁, result = .ok p₁ ∧ p₁.size = p.size + added ∧
      runAll limit is p₁ = .ok p' := by
  obtain ⟨p₁, hfirst, hrest⟩ := bind_eq_ok_iff.1 hrun
  rw [hasks.execute_eq] at hfirst
  split at hfirst
  · cases hfirst
  · next hasked =>
    exact ⟨Nat.le_of_not_lt hasked, p₁, hfirst, hasks.size_eq p₁ hfirst, hrest⟩

/-- What a run asks for is registered when it ends. -/
theorem size_add_le_of_runAll (h : Reserved count is) (hrun : runAll limit is p = .ok p') :
    p.size + count ≤ p'.size := by
  induction is generalizing p count with
  | nil =>
    cases h
    cases hrun
    exact Nat.le_refl _
  | cons i is ih =>
    obtain ⟨asked, added, result, count', hasks, hrest, hcount, -⟩ := h.exists_asks_of_cons p
    obtain ⟨-, p₁, -, hsize, hrun⟩ := hasks.of_runAll hrun
    have := ih hrest hrun
    omega

/-- Where a run ends under one limit it ends in the same way under another one that leaves it room,
and under no other. -/
theorem runAll_of_runAll (h : Reserved count is) (hpos : 1 ≤ p.size) {limit' : Nat}
    (hroom : p.size + count ≤ limit + 1) (hrun : runAll limit' is p = .ok p') :
    (p'.size ≤ limit + 1 → runAll limit is p = .ok p') ∧
      (limit + 1 < p'.size → ∃ span, runAll limit is p = .error (.tooManyBlocks limit span)) := by
  induction is generalizing p count with
  | nil =>
    cases h
    cases hrun
    exact ⟨fun _ ↦ rfl, fun hlt ↦ by omega⟩
  | cons i is ih =>
    obtain ⟨asked, added, result, count', hasks, hrest, hcount, hzero⟩ := h.exists_asks_of_cons p
    obtain ⟨-, p₁, hresult, hsize, hrun⟩ := hasks.of_runAll hrun
    rw [runAll_cons, hasks.execute_eq]
    split
    · next hlt =>
      -- What is asked for here is registered in the end.
      have := size_add_le_of_runAll hrest hrun
      exact ⟨fun hle ↦ by omega, fun _ ↦ ⟨i.span, rfl⟩⟩
    · next hle =>
      rw [hresult]
      exact ih hrest (by omega) (by omega) hrun

/-- No more blocks than the limit are registered after any number of instructions. -/
theorem size_le_of_runAll_take (h : Reserved count is) (hpos : 1 ≤ p.size)
    (hroom : p.size + count ≤ limit + 1) {n : Nat}
    (hrun : runAll limit (is.take n) p = .ok p') : p'.size ≤ limit + 1 := by
  induction is generalizing p count n with
  | nil =>
    rw [List.take_nil] at hrun
    cases hrun
    omega
  | cons i is ih =>
    cases n with
    | zero =>
      cases hrun
      omega
    | succ n =>
      obtain ⟨asked, added, result, count', hasks, hrest, hcount, hzero⟩ :=
        h.exists_asks_of_cons p
      rw [List.take_succ_cons] at hrun
      obtain ⟨hasked, p₁, -, hsize, hrun⟩ := hasks.of_runAll hrun
      exact ih hrest (by omega) (by omega) hrun

private theorem Reserved.exists_asks_of_mem (h : Reserved count is) (hi : i ∈ is) (p : Progress) :
    ∃ asked added result, Asks p i asked added result := by
  induction is generalizing count with
  | nil => cases hi
  | cons first is ih =>
    obtain ⟨asked, added, result, count', hasks, hrest, -⟩ := h.exists_asks_of_cons p
    rcases List.mem_cons.1 hi with rfl | hi
    · exact ⟨asked, added, result, hasks⟩
    · exact ih hrest hi

/-- No instruction registers more than one block. -/
theorem size_le_of_runAll_succ (h : Reserved count is) {q : Progress} {n : Nat}
    (hrun : runAll limit (is.take n) p = .ok p')
    (hnext : runAll limit (is.take (n + 1)) p = .ok q) : q.size ≤ p'.size + 1 := by
  rw [List.take_add_one, runAll_append, hrun] at hnext
  cases hi : is[n]? with
  | none =>
    rw [hi] at hnext
    cases hnext
    exact Nat.le_succ _
  | some i =>
    rw [hi] at hnext
    obtain ⟨asked, added, result, hasks⟩ := h.exists_asks_of_mem (List.mem_of_getElem? hi) p'
    change runAll limit [i] p' = .ok q at hnext
    obtain ⟨-, p₁, -, hsize, hlast⟩ := hasks.of_runAll hnext
    cases hlast
    have := hasks.added_le
    omega

/-- What is built under one limit is built under each limit that it keeps, and under no other. -/
theorem build_of_build (limit : Nat) {limit' : Nat} {ss : List (Located Statement)} {d : Document}
    (h : build limit' ss = .ok d) :
    (d.size - 1 ≤ limit → build limit ss = .ok d) ∧
      (limit < d.size - 1 → ∃ span, build limit ss = .error (.tooManyBlocks limit span)) := by
  rw [build_eq_runAll] at h ⊢
  obtain ⟨p, hrun, rfl⟩ := map_eq_ok_iff.1 h
  obtain ⟨hkept, hexceeded⟩ := runAll_of_runAll (reserved_program BlockId.root ss)
    (Nat.le_of_eq Progress.size_start.symm) (Progress.size_start_le limit) hrun
  have hsize : p.document.size = p.size := Document.size_setChildren _ _
  rw [hsize]
  refine ⟨fun hle ↦ ?_, fun hlt ↦ ?_⟩
  · rw [hkept (by omega)]
    rfl
  · obtain ⟨span, hspan⟩ := hexceeded (by omega)
    exact ⟨span, by rw [hspan]; rfl⟩

end Builder

namespace Document

open Builder

/-- A limit on blocks is exact, and makes no difference to documents that keep it. What is parsed
under one limit is parsed under each limit that it keeps, and refused for the number of blocks under
any other. Building runs the instructions of the statements, which register one block each at most,
and no more blocks than the limit are registered after any number of them. -/
theorem parse_limit (source : String) :
    (∀ m m' d, parse m' source = .ok d →
      (d.size - 1 ≤ m → parse m source = .ok d) ∧
      (m < d.size - 1 → ∃ span, parse m source = .error (.fault (.tooManyBlocks m span)))) ∧
    ∀ ss, statements source = .ok ss → ∀ m,
      build m ss = (runAll m (program BlockId.root ss) .start).map Progress.document ∧
      ∀ n p, runAll m ((program BlockId.root ss).take n) .start = .ok p →
        p.builder.document.size - 1 ≤ m ∧
        ∀ q, runAll m ((program BlockId.root ss).take (n + 1)) .start = .ok q →
          q.builder.document.size ≤ p.builder.document.size + 1 := by
  constructor
  · intro m m' d hd
    cases hss : statements source with
    | error failure =>
      rw [parse, hss] at hd
      cases hd
    | ok ss =>
      obtain ⟨hkept, hexceeded⟩ := build_of_build m (build_of_parse hss hd)
      rw [parse, hss]
      simp only [bind, Except.bind]
      refine ⟨fun hle ↦ ?_, fun hlt ↦ ?_⟩
      · rw [hkept hle]
        rfl
      · obtain ⟨span, hspan⟩ := hexceeded hlt
        exact ⟨span, by rw [hspan]; rfl⟩
  · intro ss _ m
    have hreserved := reserved_program BlockId.root ss
    refine ⟨build_eq_runAll m ss, fun n p hrun ↦ ⟨?_, fun q hnext ↦ ?_⟩⟩
    · have := size_le_of_runAll_take hreserved (Nat.le_of_eq Progress.size_start.symm)
        (Progress.size_start_le m) hrun
      rw [Progress.size] at this
      omega
    · exact size_le_of_runAll_succ hreserved hrun hnext

end Document

end BlockDiagram
