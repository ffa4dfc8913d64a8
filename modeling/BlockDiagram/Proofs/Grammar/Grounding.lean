import BlockDiagram.Proofs.Grammar.Validity

/-!
# Grounded automata

What an automaton has to satisfy so that nothing is under way in it without a reason: an item behind
some of its symbols was there in front of the last of them, wherever the state is entered from, and
an item in front of its first symbol is there because of one before it in the list of the state,
which waits for the part. `ofGrammar_isGrounded` is the check of the automaton in use.
-/

namespace BlockDiagram.Grammar

open Token (Kind)

namespace Item

/-- The symbol of an item that was read last, and the item in front of that symbol. -/
def before? (item : Item) : Option (Symbol × Item) :=
  match item.dot with
  | 0 => none
  | dot + 1 => (item.production.rhs[dot]?).map fun symbol ↦ (symbol, ⟨item.production, dot⟩)

/-- An item is behind a symbol exactly if the item in front of it waits for that symbol. -/
theorem before?_eq_some_iff {item before : Item} {symbol : Symbol} :
    item.before? = some (symbol, before) ↔
      before.next? = some symbol ∧ item = before.advance := by
  obtain ⟨p, dot⟩ := item
  obtain ⟨q, dot'⟩ := before
  cases dot with
  | zero => simp [before?, advance]
  | succ dot =>
    simp only [before?, next?, advance, Option.map_eq_some_iff, Prod.mk.injEq, Item.mk.injEq]
    constructor
    · rintro ⟨s, hs, rfl, rfl, rfl⟩
      exact ⟨hs, rfl, rfl⟩
    · rintro ⟨hs, rfl, hdot⟩
      obtain rfl := Nat.succ.inj hdot
      exact ⟨symbol, hs, rfl, rfl, rfl⟩

end Item

namespace AutomatonState

/-- Holds when the item is under way in the state, whatever may follow it. -/
def has (state : AutomatonState) (item : Item) : Bool :=
  state.items.any fun (other, _) ↦ other = item

private theorem has_iff {state : AutomatonState} {item : Item} :
    state.has item = true ↔ ∃ lookahead, (item, lookahead) ∈ state.items := by
  simp [has, List.any_eq_true]

/-- The symbol that leads to the state, read off its first item; none for the initial state. -/
def entry? (state : AutomatonState) : Option Symbol :=
  (state.items.head?.bind fun (item, _) ↦ item.before?).map Prod.fst

/-- Holds when what is under way behind a symbol was so in front of it, in this state. -/
def leads (a : Automaton) (state : AutomatonState) : Bool :=
  state.next.all fun (symbol, q) ↦
    q ≠ 0 && (a[q]?).any fun target ↦
      target.items.all fun (item, _) ↦
        item.dot = 0 || item.before?.any fun (last, before) ↦ last = symbol && state.has before

/-- Holds when an item in front of its first symbol makes a part that an earlier item waits for. A
parse that has not begun is under way in the initial state only. -/
def grounds (q : Nat) (items : Items) (i : Nat) : Bool :=
  (items[i]?).all fun (item, _) ↦
    0 < item.dot ||
      if item.production = .accept then q = 0
      else (items.take i).any fun (other, _) ↦
        other.next? = some (.nonterminal item.production.lhs)

end AutomatonState

namespace Automaton

/-- Holds when nothing is under way in any state without a reason. -/
def isGrounded (a : Automaton) : Bool :=
  ((List.range a.size).all fun q ↦ (a[q]?).any fun state ↦
    !state.items.isEmpty && state.leads a &&
      (List.range state.items.length).all (AutomatonState.grounds q state.items)) &&
    (a[0]?).any fun state ↦ state.items.all fun (item, _) ↦ item.dot = 0

/-- The automaton of the grammar passes the check. -/
theorem ofGrammar_isGrounded : ofGrammar.isGrounded = true := by
  decide +kernel

variable {a : Automaton} {q : Nat} {state : AutomatonState}

private theorem state_of_isGrounded (h : a.isGrounded = true) (hq : a[q]? = some state) :
    state.items ≠ [] ∧ state.leads a = true ∧
      ∀ i < state.items.length, AutomatonState.grounds q state.items i = true := by
  obtain ⟨hlt, -⟩ := Array.getElem?_eq_some_iff.1 hq
  have := List.all_eq_true.1 (Bool.and_eq_true_iff.1 h).1 q (List.mem_range.2 hlt)
  simpa [hq, and_assoc] using this

/-- In every state something is under way. -/
theorem items_ne_nil (h : a.isGrounded = true) (hq : a[q]? = some state) : state.items ≠ [] :=
  (state_of_isGrounded h hq).1

/-- There is an initial state. -/
theorem exists_initial (h : a.isGrounded = true) : ∃ state, a[0]? = some state := by
  obtain ⟨state, hstate, -⟩ := (Option.any_eq_true _ _).1 (Bool.and_eq_true_iff.1 h).2
  exact ⟨state, hstate⟩

/-- Nothing was read in front of the initial state. -/
theorem dot_of_initial (h : a.isGrounded = true) (hq : a[0]? = some state) {item : Item}
    {lookahead : KindSet} (hitem : (item, lookahead) ∈ state.items) : item.dot = 0 := by
  obtain ⟨initial, hinitial, hall⟩ := (Option.any_eq_true _ _).1 (Bool.and_eq_true_iff.1 h).2
  obtain rfl := Option.some.inj (hinitial.symm.trans hq)
  exact of_decide_eq_true (List.all_eq_true.1 hall _ hitem)

/-- A symbol leads to a state in which no item is behind its first symbol, unless it was in front of
this one. -/
theorem before_of_lookup (h : a.isGrounded = true) (hq : a[q]? = some state) {symbol : Symbol}
    {target : Nat} (hnext : state.next.lookup symbol = some target) :
    target ≠ 0 ∧ ∃ entered, a[target]? = some entered ∧
      ∀ item lookahead, (item, lookahead) ∈ entered.items → item.dot = 0 ∨
        ∃ before kinds, item.before? = some (symbol, before) ∧ (before, kinds) ∈ state.items := by
  have hleads := List.all_eq_true.1 (state_of_isGrounded h hq).2.1 _ (mem_of_lookup hnext)
  simp only [Bool.and_eq_true, decide_eq_true_eq, Option.any_eq_true] at hleads
  obtain ⟨htarget, entered, hentered, hitems⟩ := hleads
  refine ⟨htarget, entered, hentered, fun item lookahead hitem ↦ ?_⟩
  have hbefore := List.all_eq_true.1 hitems _ hitem
  simp only [Bool.or_eq_true, decide_eq_true_eq, Option.any_eq_true, Bool.and_eq_true] at hbefore
  rcases hbefore with hdot | ⟨⟨last, before⟩, heq, hlast, hhas⟩
  · exact .inl hdot
  · obtain ⟨kinds, hkinds⟩ := AutomatonState.has_iff.1 hhas
    exact .inr ⟨before, kinds, hlast ▸ heq, hkinds⟩

/-- An item in front of its first symbol is there for an earlier one that waits for the part. -/
theorem exists_waiting (h : a.isGrounded = true) (hq : a[q]? = some state) {i : Nat} {item : Item}
    {lookahead : KindSet} (hitem : state.items[i]? = some (item, lookahead)) (hdot : item.dot = 0) :
    (item.production = .accept ∧ q = 0) ∨ item.production ≠ .accept ∧
      ∃ j < i, ∃ other kinds, state.items[j]? = some (other, kinds) ∧
        other.next? = some (.nonterminal item.production.lhs) := by
  obtain ⟨hlt, -⟩ := List.getElem?_eq_some_iff.1 hitem
  have hgrounds := (state_of_isGrounded h hq).2.2 i hlt
  simp only [AutomatonState.grounds, hitem, Option.all_some, hdot, Nat.lt_irrefl, decide_false,
    Bool.false_or] at hgrounds
  split at hgrounds
  · next haccept => exact .inl ⟨haccept, of_decide_eq_true hgrounds⟩
  · next haccept =>
    obtain ⟨⟨other, kinds⟩, hother, hnext⟩ := List.any_eq_true.1 hgrounds
    obtain ⟨j, hj⟩ := List.mem_iff_getElem?.1 hother
    rw [List.getElem?_take] at hj
    split at hj
    · next hji => exact .inr ⟨haccept, j, hji, other, kinds, hj, of_decide_eq_true hnext⟩
    · cases hj

/-- Only in front of its first symbol an item is there for another one, so the first item of a state
that is entered says which symbol leads to it. -/
theorem entry?_of_lookup (h : a.isGrounded = true) (hq : a[q]? = some state) {symbol : Symbol}
    {target : Nat} (hnext : state.next.lookup symbol = some target) :
    ∃ entered, a[target]? = some entered ∧ entered.entry? = some symbol := by
  obtain ⟨htarget, entered, hentered, hitems⟩ := before_of_lookup h hq hnext
  refine ⟨entered, hentered, ?_⟩
  obtain ⟨⟨item, lookahead⟩, rest, hcons⟩ :=
    List.exists_cons_of_ne_nil (items_ne_nil h hentered)
  have hfirst : entered.items[0]? = some (item, lookahead) := by rw [hcons]; rfl
  rcases hitems item lookahead (List.mem_of_getElem? hfirst) with hdot | ⟨before, -, hbefore, -⟩
  · rcases exists_waiting h hentered hfirst hdot with ⟨-, hzero⟩ | ⟨-, j, hj, -⟩
    · exact absurd hzero htarget
    · exact absurd hj (Nat.not_lt_zero j)
  · rw [AutomatonState.entry?, hcons, List.head?_cons, Option.bind_some]
    dsimp only
    rw [hbefore]
    rfl

end Automaton

/-! ### Actions -/

namespace AutomatonState

variable {state : AutomatonState} {kind : Kind}

/-- A token that is shifted leads to the state that its kind leads to. -/
theorem lookup_of_action_shift {target : Nat} (h : state.action kind = some (.shift target)) :
    state.next.lookup (.terminal kind) = some target := by
  rw [action] at h
  split at h
  · next htarget =>
    cases h
    exact htarget
  · obtain ⟨⟨item, lookahead⟩, -, hentry⟩ := Option.map_eq_some_iff.1 h
    dsimp only at hentry
    split at hentry <;> cases hentry

private theorem item_of_action {action : Action} (h : state.action kind = some action)
    (hshift : ∀ target, action ≠ .shift target) :
    ∃ item lookahead, (item, lookahead) ∈ state.items ∧ item.next? = none ∧
      lookahead.contains kind = true ∧ action = completion item.production := by
  rw [AutomatonState.action] at h
  split at h
  · cases h
    exact absurd rfl (hshift _)
  · obtain ⟨⟨item, lookahead⟩, hfind, haction⟩ := Option.map_eq_some_iff.1 h
    have hcomplete := List.find?_some hfind
    rw [Bool.and_eq_true, Option.isNone_iff_eq_none] at hcomplete
    exact ⟨item, lookahead, List.mem_of_find?_eq_some hfind, hcomplete.1, hcomplete.2,
      haction.symm⟩

/-- A rule is applied where it is complete, in front of its lookaheads. -/
theorem item_of_action_reduce {p : Production} (h : state.action kind = some (.reduce p)) :
    p ≠ .accept ∧ ∃ item lookahead, (item, lookahead) ∈ state.items ∧ item.next? = none ∧
      lookahead.contains kind = true ∧ item.production = p := by
  obtain ⟨item, lookahead, hitem, hnext, hkind, haction⟩ :=
    item_of_action h fun _ ↦ Action.noConfusion
  rw [completion] at haction
  split at haction
  · cases haction
  · next haccept =>
    cases haction
    exact ⟨haccept, item, lookahead, hitem, hnext, hkind, rfl⟩

/-- A parse ends where the rule for whole sources is complete. -/
theorem item_of_action_accept (h : state.action kind = some .accept) :
    ∃ item lookahead, (item, lookahead) ∈ state.items ∧ item.next? = none ∧
      item.production = .accept := by
  obtain ⟨item, lookahead, hitem, hnext, -, haction⟩ :=
    item_of_action h fun _ ↦ Action.noConfusion
  rw [completion] at haction
  split at haction
  · next haccept => exact ⟨item, lookahead, hitem, hnext, haccept⟩
  · cases haction

end AutomatonState

end BlockDiagram.Grammar
