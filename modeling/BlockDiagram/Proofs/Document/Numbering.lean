import BlockDiagram.Proofs.Document.Invariants
import BlockDiagram.Proofs.Document.Limit
import BlockDiagram.Proofs.Parser.Leftmost

/-!
# Numbers of spacers

A spacer is named by its composite and a number, the first from some counter on that makes a name
which is not taken. The search for it has no end of its own (`SearchEnds`): it ends since no more
names can be taken than there are blocks. The counter of a composite is never set back, not even
when the composite is opened again, and every number below it is taken (`IsExhausted`). So each
spacer is a new block with the least number that is free, and the numbers of a composite grow
(`numbers_of_program`).
-/

namespace BlockDiagram.Builder

open Source (Located Span)
open Grammar (Production labelRules nodeRules)

/-! ### The search for a number -/

/-- Holds where the search for a free name in a composite that is at one number ends with another
one. -/
inductive SearchEnds (taken : BlockId → Bool) (composite : BlockId) : Nat → Nat → Prop where
  | free {n : Nat} (h : taken (composite.numbered n) = false) : SearchEnds taken composite n n
  | skip {n found : Nat} (h : taken (composite.numbered n) = true)
      (hrest : SearchEnds taken composite (n + 1) found) : SearchEnds taken composite n found

section Search

variable {taken : BlockId → Bool} {composite : BlockId} {n found fuel : Nat}

/-- The search ends with the first free number, and skips those that are taken. -/
theorem searchEnds_iff : SearchEnds taken composite n found ↔
    n ≤ found ∧ taken (composite.numbered found) = false ∧
      ∀ k, n ≤ k → k < found → taken (composite.numbered k) = true := by
  constructor
  · intro h
    induction h with
    | free h => exact ⟨Nat.le_refl _, h, fun k hle hlt ↦ by omega⟩
    | @skip n found h hrest ih =>
      obtain ⟨hle, hfree, hskipped⟩ := ih
      refine ⟨by omega, hfree, fun k hk hlt ↦ ?_⟩
      by_cases heq : k = n
      · rwa [heq]
      · exact hskipped k (by omega) hlt
  · rintro ⟨hle, hfree, hskipped⟩
    obtain ⟨count, rfl⟩ := Nat.exists_eq_add_of_le hle
    induction count generalizing n with
    | zero => exact .free hfree
    | succ count ih =>
      rw [Nat.add_comm count 1, ← Nat.add_assoc] at hfree hskipped ⊢
      refine .skip (hskipped n (Nat.le_refl n) (by omega)) (ih (by omega) hfree fun k hk ↦ ?_)
      exact hskipped k (by omega)

/-- The bounded search is the search as long as it does not give up. -/
theorem searchEnds_freeNumber
    (h : taken (composite.numbered (freeNumber taken composite fuel n)) = false) :
    SearchEnds taken composite n (freeNumber taken composite fuel n) := by
  induction fuel generalizing n with
  | zero => exact .free h
  | succ fuel ih =>
    rw [freeNumber] at h ⊢
    split at h
    · next hn =>
      rw [if_pos hn]
      exact .skip hn (ih h)
    · next hn =>
      rw [if_neg hn]
      exact .free h

private theorem freeNumber_le (taken : BlockId → Bool) (composite : BlockId) (fuel n : Nat) :
    freeNumber taken composite fuel n ≤ n + fuel := by
  induction fuel generalizing n with
  | zero => exact Nat.le_refl n
  | succ fuel ih =>
    rw [freeNumber]
    split
    · have := ih (n + 1)
      omega
    · omega

end Search

/-! ### Counters -/

variable {b b' : Builder} {composite : BlockId} {limit : Nat}

/-- The number that the next search in a composite starts from. -/
def counter (b : Builder) (composite : BlockId) : Nat :=
  (b.spacers[composite]?).getD 0

/-- The number that the next spacer of a composite gets. -/
def nextNumber (b : Builder) (composite : BlockId) : Nat :=
  freeNumber b.document.contains composite b.document.size (b.counter composite)

/-- The search for the number of a spacer always ends. -/
theorem searchEnds_nextNumber (b : Builder) (composite : BlockId) :
    SearchEnds b.document.contains composite (b.counter composite) (b.nextNumber composite) :=
  searchEnds_freeNumber (contains_freeNumber _ _ _)

/-- The builder with a new spacer, which is not placed yet. -/
def withSpacer (b : Builder) (composite : BlockId) : Builder :=
  let n := b.nextNumber composite
  { b with
    spacers := b.spacers.insert composite (n + 1)
    document := b.document.insertBlock (Block.ofShape (composite.numbered n) .space) }

private theorem run_addSpacer (b : Builder) (composite : BlockId) (children : List BlockId) :
    (addSpacer composite children).run b =
      (place (composite.numbered (b.nextNumber composite)) children).run (b.withSpacer composite) :=
  rfl

private theorem counter_withSpacer (b : Builder) (composite other : BlockId) :
    (b.withSpacer composite).counter other =
      if composite = other then b.nextNumber composite + 1 else b.counter other := by
  simp only [counter, withSpacer, Std.ExtTreeMap.getElem?_insert, Std.LawfulEqCmp.compare_eq_iff_eq]
  split <;> rfl

/-- The spacer is a new block, and no other block changes. -/
theorem block?_withSpacer (b : Builder) (composite id : BlockId) :
    (b.withSpacer composite).document.block? id =
      if id = composite.numbered (b.nextNumber composite) then some (Block.ofShape id .space)
      else b.document.block? id := by
  have hfree := contains_freeNumber b.document composite (b.counter composite)
  simp only [withSpacer, Document.block?_insertBlock]
  by_cases hid : id = composite.numbered (b.nextNumber composite)
  · rw [if_pos ⟨hfree, hid.symm⟩, if_pos hid, hid]
  · rw [if_neg fun hboth ↦ hid hboth.2.symm, if_neg hid]

/-- Holds when all numbers below the counter of a composite are taken. -/
def IsExhausted (b : Builder) : Prop :=
  ∀ composite k, k < b.counter composite → b.document.contains (composite.numbered k) = true

private theorem isExhausted_start : start.IsExhausted := by
  intro composite k hk
  simp [counter, start] at hk

/-- The search skips taken names only, so all numbers below the one that it finds are taken. -/
theorem IsExhausted.contains (h : b.IsExhausted) {k : Nat} (hk : k < b.nextNumber composite) :
    b.document.contains (composite.numbered k) = true := by
  by_cases hcounter : k < b.counter composite
  · exact h composite k hcounter
  · exact (searchEnds_iff.1 (b.searchEnds_nextNumber composite)).2.2 k (by omega) hk

private theorem contains_withSpacer {id : BlockId} (hid : b.document.contains id = true) :
    (b.withSpacer composite).document.contains id = true :=
  (losesNothing_insertBlock _).contains _ id hid

private theorem IsExhausted.withSpacer (h : b.IsExhausted) :
    (b.withSpacer composite).IsExhausted := by
  intro other k hk
  rw [counter_withSpacer] at hk
  split at hk
  · next heq =>
    subst heq
    by_cases hnew : k = b.nextNumber composite
    · subst hnew
      have hblock := b.block?_withSpacer composite (composite.numbered (b.nextNumber composite))
      exact Document.contains_of_block? (hblock.trans (if_pos rfl))
    · exact contains_withSpacer (h.contains (by omega))
  · exact contains_withSpacer (h other k hk)

private theorem counter_le_withSpacer (b : Builder) (composite other : BlockId) :
    b.counter other ≤ (b.withSpacer composite).counter other := by
  rw [counter_withSpacer]
  split
  · next heq =>
    have hle := (searchEnds_iff.1 (b.searchEnds_nextNumber other)).1
    rw [heq]
    omega
  · exact Nat.le_refl _

/-! ### Instructions -/

/-- Holds when the numbers below the counters are taken, and no counter is below a given number. -/
structure CountsFrom (least : BlockId → Nat) (b : Builder) : Prop where
  exhausted : b.IsExhausted
  least_le : ∀ composite, least composite ≤ b.counter composite

variable {least : BlockId → Nat}

/-- Counters depend on nothing but themselves, and taken names stay taken. -/
theorem CountsFrom.of_spacers_eq (h : CountsFrom least b) (hspacers : b'.spacers = b.spacers)
    (hcontains : ∀ id, b.document.contains id = true → b'.document.contains id = true) :
    CountsFrom least b' := by
  have hcounter (composite : BlockId) : b'.counter composite = b.counter composite := by
    rw [counter, hspacers, counter]
  constructor
  · intro composite k hk
    rw [hcounter] at hk
    exact hcontains _ (h.exhausted composite k hk)
  · intro composite
    rw [hcounter]
    exact h.least_le composite

private theorem toleratesBlocks_countsFrom (least : BlockId → Nat) :
    ToleratesBlocks (CountsFrom least) :=
  fun _ _ _ _ _ hspacers hcontains h ↦ h.of_spacers_eq hspacers hcontains

private theorem CountsFrom.withSpacer (h : CountsFrom least b) :
    CountsFrom least (b.withSpacer composite) where
  exhausted := h.exhausted.withSpacer
  least_le other := Nat.le_trans (h.least_le other) (b.counter_le_withSpacer composite other)

private theorem respects_addSpacer_countsFrom {E : Fault → Prop} (composite : BlockId)
    (children : List BlockId) :
    Respects (CountsFrom least) E (addSpacer composite children) := by
  have hplace (id : BlockId) : Respects (CountsFrom least) E (place id children) :=
    respects_place (toleratesBlocks_countsFrom least) id children
  constructor
  · intro b b' placed hb h
    rw [run_addSpacer] at h
    exact (hplace _).ok hb.withSpacer h
  · intro b fault hb h
    rw [run_addSpacer] at h
    exact (hplace _).error hb.withSpacer h

variable {I : Builder → Prop} {p p' : Progress} {ss : List (Located Statement)}

private theorem Respects.of_after {m : Building Unit} (hm : Respects I (fun _ ↦ True) m)
    (hp : I p.builder) (h : p.after m = .ok p') : I p'.builder := by
  obtain ⟨⟨_, b⟩, hrun, rfl⟩ := map_eq_ok_iff.1 h
  exact hm.ok hp hrun

private theorem Respects.of_inside {step : List BlockId → Building (List BlockId)}
    (hstep : ∀ children, Respects I (fun _ ↦ True) (step children)) (hp : I p.builder)
    (h : p.inside step = .ok p') : I p'.builder := by
  obtain ⟨⟨_, b⟩, hrun, rfl⟩ := map_eq_ok_iff.1 h
  exact (hstep _).ok hp hrun

/-- What a program only changes neither registers nor places blocks. -/
theorem Reserved.isQuiet {count : Nat} {is : List Instruction} (h : Reserved count is)
    {statement : Statement} {span : Span} (hmem : .change composite statement span ∈ is) :
    statement.isQuiet = true := by
  induction h with
  | nil => cases hmem
  | spacer h ih | reserve h ih =>
    rcases List.mem_cons.1 hmem with heq | hmem
    · cases heq
    · exact ih hmem
  | plain hi h ih =>
    rcases List.mem_cons.1 hmem with rfl | hmem
    · exact hi
    · exact ih hmem

/-- A quiet statement leaves the counters as they are. -/
theorem respects_perform_countsFrom {statement : Statement} (h : statement.isQuiet = true)
    (composite : BlockId) (span : Span) (children : List BlockId) :
    Respects (CountsFrom least) (fun _ ↦ True)
      (perform limit composite span children statement) := by
  have hother : statement.isComposite = false ∧ ∀ count, statement ≠ .space count := by
    cases statement <;> first | exact ⟨rfl, fun _ ↦ Statement.noConfusion⟩ | cases h
  refine respects_perform (toleratesBlocks_countsFrom least) (fun e _ ↦ ?_)
    (fun _ _ ↦ respects_checkNotEnclosing trivial) (fun _ _ ↦ trivial) hother.1
    fun count hspace ↦ absurd hspace (hother.2 count)
  exact respects_modify fun b hb ↦ hb.of_spacers_eq rfl fun _ hid ↦ hid

/-- No instruction of a program sets a counter back, or makes a name free that was taken. -/
theorem CountsFrom.of_execute {i : Instruction} (hi : i ∈ program BlockId.root ss)
    (hp : CountsFrom least p.builder) (h : execute limit p i = .ok p') :
    CountsFrom least p'.builder := by
  have htolerates := toleratesBlocks_countsFrom least
  have hplace (id : BlockId) (children : List BlockId) :
      Respects (CountsFrom least) (fun _ ↦ True) (place id children) :=
    respects_place htolerates id children
  have hcheck (id : BlockId) (span : Span) :
      Respects (CountsFrom least) (fun _ ↦ True) (checkNotEnclosing id span) :=
    respects_checkNotEnclosing trivial
  cases i with
  | declare node span =>
    exact (respects_declare htolerates (fun _ _ ↦ trivial) node).of_after hp h
  | place id span =>
    obtain ⟨checked, hchecked, h⟩ := bind_eq_ok_iff.1 h
    exact Respects.of_inside (hplace id) ((hcheck id span).of_after hp hchecked) h
  | enter id span =>
    obtain ⟨checked, hchecked, h⟩ := bind_eq_ok_iff.1 h
    cases h
    exact ((hcheck id span).of_after hp hchecked).of_spacers_eq rfl fun _ hid ↦ hid
  | leave id =>
    have hleft : CountsFrom least (p.leave id).builder :=
      hp.of_spacers_eq rfl ((losesNothing_modifyBlock id _).contains _)
    exact Respects.of_inside (p := p.leave id) (hplace id) hleft h
  | reserve count span => exact (respects_reserve (fun _ _ ↦ trivial) count).of_after hp h
  | spacer composite => exact Respects.of_inside (respects_addSpacer_countsFrom composite) hp h
  | classify id name span =>
    exact (respects_applyClass htolerates (fun _ _ ↦ trivial) name [id]).of_after hp h
  | change composite statement span =>
    have hquiet := (reserved_program BlockId.root ss).isQuiet hi
    exact Respects.of_inside (respects_perform_countsFrom hquiet composite span) hp h

private theorem CountsFrom.of_runAll {is : List Instruction} (his : is ⊆ program BlockId.root ss)
    (hp : CountsFrom least p.builder) (h : runAll limit is p = .ok p') :
    CountsFrom least p'.builder := by
  induction is generalizing p with
  | nil =>
    cases h
    exact hp
  | cons i is ih =>
    obtain ⟨hi, his⟩ := List.cons_subset.1 his
    obtain ⟨p₁, hfirst, hrest⟩ := bind_eq_ok_iff.1 h
    exact ih his (hp.of_execute hi hfirst) hrest

/-- An instruction for a spacer never fails. It does what `withSpacer` does and places the spacer. -/
theorem exists_of_execute_spacer (limit : Nat) (p : Progress) (composite : BlockId) :
    ∃ p', execute limit p (.spacer composite) = .ok p' ∧
      p'.builder.document = (p.builder.withSpacer composite).document ∧
      p'.builder.spacers = (p.builder.withSpacer composite).spacers := by
  refine ⟨_, rfl, ?_, ?_⟩
  · change (if _ then _ else _ : List BlockId × Builder).2.document = _
    split <;> rfl
  · change (if _ then _ else _ : List BlockId × Builder).2.spacers = _
    split <;> rfl

/-- Behind a spacer, the search in its composite starts from greater numbers only. -/
theorem nextNumber_lt_of_runAll {is : List Instruction} {q : Progress}
    (his : is ⊆ program BlockId.root ss) (hp : p.builder.IsExhausted)
    (hspacer : execute limit p (.spacer composite) = .ok p') (h : runAll limit is p' = .ok q) :
    p.builder.nextNumber composite < q.builder.counter composite := by
  obtain ⟨p'', hspacer', hdocument, hspacers⟩ := exists_of_execute_spacer limit p composite
  obtain rfl := Except.ok.inj (hspacer.symm.trans hspacer')
  -- The counter is one more than the number, and is never set back.
  have hcounts : CountsFrom (p.builder.withSpacer composite).counter p'.builder :=
    CountsFrom.of_spacers_eq ⟨hp.withSpacer, fun _ ↦ Nat.le_refl _⟩ hspacers
      fun _ hid ↦ hdocument ▸ hid
  have hle := (hcounts.of_runAll his h).least_le composite
  rwa [counter_withSpacer, if_pos rfl] at hle

/-- A run of some instructions goes on behind a shorter one with the instruction that is next. -/
theorem exists_runAll_take_of_lt {is : List Instruction} {i : Instruction} {n m : Nat}
    (hlt : n < m) (hi : is[n]? = some i) (hn : runAll limit (is.take n) p = .ok p') :
    ∃ rest, rest ⊆ is ∧
      runAll limit (is.take m) p = (execute limit p' i).bind (runAll limit rest) := by
  obtain ⟨count, rfl⟩ := Nat.exists_eq_add_of_le (Nat.succ_le_of_lt hlt)
  refine ⟨(is.drop (n + 1)).take count,
    List.Subset.trans (List.take_subset _ _) (List.drop_subset _ _), ?_⟩
  rw [List.take_add, List.take_add_one, hi, List.append_assoc, runAll_append, hn]
  rfl

/-- Spacers get new names. Whatever statements are carried out, between any two of their
instructions the search for the number of a spacer ends, for every composite, and skips no more
numbers than there are blocks. It ends with the least number that makes a name which no block has,
so a spacer with it is one more block and no other block changes. Spacers that the same composite
gets later have greater numbers. -/
theorem numbers_of_program (limit : Nat) (ss : List (Located Statement)) :
    build limit ss = (runAll limit (program BlockId.root ss) .start).map Progress.document ∧
    ∀ i p, runAll limit ((program BlockId.root ss).take i) .start = .ok p → ∀ composite,
      ∃ n, SearchEnds p.builder.document.contains composite (p.builder.counter composite) n ∧
        n ≤ p.builder.counter composite + p.builder.document.size ∧
        p.builder.document.contains (composite.numbered n) = false ∧
        (∀ k, k < n → p.builder.document.contains (composite.numbered k) = true) ∧
        ∃ p', execute limit p (.spacer composite) = .ok p' ∧
          p'.builder.document.size = p.builder.document.size + 1 ∧
          (∀ id, p'.builder.document.block? id =
            if id = composite.numbered n then some (Block.ofShape id .space)
            else p.builder.document.block? id) ∧
          ∀ j q, i < j → (program BlockId.root ss)[i]? = some (.spacer composite) →
            runAll limit ((program BlockId.root ss).take j) .start = .ok q → ∀ m,
            SearchEnds q.builder.document.contains composite (q.builder.counter composite) m →
              n < m := by
  refine ⟨build_eq_runAll limit ss, fun i p hp composite ↦ ?_⟩
  have hcounts : CountsFrom (fun _ ↦ 0) p.builder :=
    CountsFrom.of_runAll (List.take_subset i _) ⟨isExhausted_start, fun _ ↦ Nat.zero_le _⟩ hp
  obtain ⟨p', hspacer, hdocument, -⟩ := exists_of_execute_spacer limit p composite
  refine ⟨p.builder.nextNumber composite, p.builder.searchEnds_nextNumber composite,
    freeNumber_le _ _ _ _, contains_freeNumber _ _ _, fun k hk ↦ hcounts.exhausted.contains hk,
    p', hspacer, ?_, fun id ↦ ?_, fun j q hlt hi hq m hm ↦ ?_⟩
  · exact size_of_inside (fun _ _ _ _ ↦ size_of_addSpacer) hspacer
  · rw [hdocument]
    exact p.builder.block?_withSpacer composite id
  · obtain ⟨rest, hrest, hrun⟩ := exists_runAll_take_of_lt hlt hi hp
    rw [hq, hspacer] at hrun
    have hcounter := nextNumber_lt_of_runAll hrest hcounts.exhausted hspacer hrun.symm
    exact Nat.lt_of_lt_of_le hcounter (searchEnds_iff.1 hm).1

/-- A source that opens a composite again. The second spacer would have the name of the composite
without a name. -/
def skipping : String :=
  "block-beta block a end block:block[\"x\"] space end block:block[\"x\"] space end"

/-- The rules that derive a composite with a label and one spacer. -/
def spacedBodyRules : List Production :=
  [.documentMore, .block, .namedBlock, .unsizedNode] ++ labelRules ++
    [.documentMore, .space, .documentEnd]

/-- The rules that derive it. -/
def skippingRules : List Production :=
  [.start, .documentMore, .block, .anonymousBlock] ++ nodeRules ++ [.documentEnd] ++
    spacedBodyRules ++ spacedBodyRules ++ [.documentEnd]

/-- The second spacer is numbered from one on, but that number is taken. -/
theorem numbers_skipping : ∃ ss p, statements skipping = .ok ss ∧
    runAll 9 ((program BlockId.root ss).take 13) .start = .ok p ∧
      p.builder.counter "block" = 1 ∧
        SearchEnds p.builder.document.contains "block" (p.builder.counter "block") 2 := by
  have hdecide : ((statementsAlong skippingRules skipping).bind fun ss ↦
      (runAll 9 ((program BlockId.root ss).take 13) .start).toOption.map fun p ↦
        (p.builder.counter "block", p.builder.document.contains "block-1",
          p.builder.document.contains "block-2")) = some (1, true, false) := by
    decide +kernel
  obtain ⟨ss, hss, hdecide⟩ := Option.bind_eq_some_iff.1 hdecide
  obtain ⟨p, hp, hresult⟩ := Option.map_eq_some_iff.1 hdecide
  simp only [Prod.mk.injEq] at hresult
  obtain ⟨hcounter, htaken, hfree⟩ := hresult
  have hrun := eq_ok_of_toOption hp
  obtain ⟨n, hends, -, hnew, hskipped, -⟩ := (numbers_of_program 9 ss).2 13 p hrun "block"
  have hle := (searchEnds_iff.1 hends).1
  rw [hcounter] at hle
  have hne : n ≠ 1 := by
    rintro rfl
    exact Bool.false_ne_true (hnew.symm.trans htaken)
  have hnot : ¬ 2 < n := fun hlt ↦ Bool.false_ne_true (hfree.symm.trans (hskipped 2 hlt))
  obtain rfl : n = 2 := by omega
  exact ⟨ss, p, statements_of_along hss, hrun, hcounter, hends⟩

end BlockDiagram.Builder
