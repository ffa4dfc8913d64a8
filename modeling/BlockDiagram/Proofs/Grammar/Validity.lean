import BlockDiagram.Grammar.Automaton

/-!
# Valid automata

What an automaton has to satisfy so that it reads every diagram of the grammar: each symbol an item
waits for leads to a state with the item after it, the items that start a part stand beside those
that wait for it, and behind a complete rule the rule is applied. All of it can be checked state by
state, and `ofGrammar_isValid` is the check of the automaton in use.
-/

namespace BlockDiagram.Grammar

open Token (Kind)

/-- What is found under a key is listed with it. -/
theorem mem_of_lookup {α β : Type} [BEq α] [LawfulBEq α] {entries : List (α × β)} {key : α}
    {value : β} (h : entries.lookup key = some value) : (key, value) ∈ entries := by
  obtain ⟨front, back, rfl, -⟩ := List.lookup_eq_some_iff.1 h
  exact List.mem_append_right _ List.mem_cons_self

namespace KindSet

/-- Holds when one set has all kinds of another. -/
def includes (s t : KindSet) : Bool :=
  s.union t = s

/-- A set has all kinds of a set that it includes. -/
theorem contains_of_includes {s t : KindSet} (h : s.includes t = true) {kind : Kind}
    (hkind : t.contains kind = true) : s.contains kind = true := by
  rw [← of_decide_eq_true h, contains_union, hkind, Bool.or_true]

end KindSet

/-! ### Beginnings -/

namespace Beginnings

/-- Holds when every part begins in each way that one of its rules does. -/
def isClosed (bs : Beginnings) : Bool :=
  Production.all.all fun p ↦
    let b := bs.ofSymbols ⟨true, .empty⟩ p.rhs
    (!b.nullable || (bs.of p.lhs).nullable) && (bs.of p.lhs).first.includes b.first

private theorem nullable_of_isClosed {bs : Beginnings} (h : bs.isClosed = true) (p : Production)
    (hp : (bs.ofSymbols ⟨true, .empty⟩ p.rhs).nullable = true) :
    (bs.of p.lhs).nullable = true := by
  have := List.all_eq_true.1 h p p.mem_all
  simpa [hp] using (Bool.and_eq_true_iff.1 this).1

private theorem first_of_isClosed {bs : Beginnings} (h : bs.isClosed = true) (p : Production)
    {kind : Kind} (hp : (bs.ofSymbols ⟨true, .empty⟩ p.rhs).first.contains kind = true) :
    (bs.of p.lhs).first.contains kind = true := by
  have := List.all_eq_true.1 h p p.mem_all
  exact KindSet.contains_of_includes (Bool.and_eq_true_iff.1 this).2 hp

/-- Symbols behind a part that may be empty count as long as the part is. -/
theorem first_ofSymbols_of_first {bs : Beginnings} {follow : Beginning} {part : Nonterminal}
    {rest : List Symbol} {kind : Kind} (h : (bs.of part).first.contains kind = true) :
    (bs.ofSymbols follow (.nonterminal part :: rest)).first.contains kind = true := by
  rw [ofSymbols]
  dsimp only
  split
  · rw [KindSet.contains_union, h, Bool.true_or]
  · exact h

/-- A run of symbols that derives no token begins as what comes behind it does. -/
theorem ofSymbols_of_derives_nil {bs : Beginnings} (hbs : bs.isClosed = true)
    {symbols : List Symbol} {kinds : List Kind} (h : Derives symbols kinds) (hkinds : kinds = [])
    (follow : Beginning) :
    (follow.nullable = true → (bs.ofSymbols follow symbols).nullable = true) ∧
      ∀ kind, follow.first.contains kind = true →
        (bs.ofSymbols follow symbols).first.contains kind = true := by
  induction h generalizing follow with
  | done => exact ⟨id, fun _ ↦ id⟩
  | terminal h ih => cases hkinds
  | nonterminal p hp h ihp ih =>
    obtain ⟨rfl, rfl⟩ := List.append_eq_nil_iff.1 hkinds
    have hnullable := nullable_of_isClosed hbs p ((ihp rfl ⟨true, .empty⟩).1 rfl)
    obtain ⟨hrest, hfirst⟩ := ih rfl follow
    simp only [ofSymbols, hnullable, ite_true, KindSet.contains_union]
    exact ⟨hrest, fun kind hkind ↦ by rw [hfirst kind hkind, Bool.or_true]⟩

/-- A run of symbols begins with the first kind that it derives. -/
theorem ofSymbols_of_derives_cons {bs : Beginnings} (hbs : bs.isClosed = true)
    {symbols : List Symbol} {kinds : List Kind} (h : Derives symbols kinds) {kind : Kind}
    {kinds' : List Kind} (hkinds : kinds = kind :: kinds') (follow : Beginning) :
    (bs.ofSymbols follow symbols).first.contains kind = true := by
  induction h generalizing follow kinds' with
  | done => cases hkinds
  | terminal h ih =>
    obtain ⟨rfl, -⟩ := List.cons.inj hkinds
    rw [ofSymbols, KindSet.contains_single, decide_eq_true rfl]
  | @nonterminal symbols front back p hp h ihp ih =>
    cases front with
    | nil =>
      have hnullable := nullable_of_isClosed hbs p
        ((ofSymbols_of_derives_nil hbs hp rfl ⟨true, .empty⟩).1 rfl)
      simp only [ofSymbols, hnullable, ite_true, KindSet.contains_union]
      rw [ih hkinds follow, Bool.or_true]
    | cons first front =>
      obtain ⟨rfl, -⟩ := List.cons.inj hkinds
      exact first_ofSymbols_of_first (first_of_isClosed hbs p (ihp rfl ⟨true, .empty⟩))

/-- The first kind of a run of symbols and of what may follow it is among its beginnings. -/
theorem contains_headD {bs : Beginnings} (hbs : bs.isClosed = true) {symbols : List Symbol}
    {kinds : List Kind} (h : Derives symbols kinds) {lookahead : KindSet} {next : Kind}
    (hnext : lookahead.contains next = true) :
    (bs.ofSymbols ⟨true, lookahead⟩ symbols).first.contains (kinds.headD next) = true := by
  cases kinds with
  | nil => exact (ofSymbols_of_derives_nil hbs h rfl ⟨true, lookahead⟩).2 next hnext
  | cons kind kinds => exact ofSymbols_of_derives_cons hbs h rfl ⟨true, lookahead⟩

end Beginnings

/-! ### Checking states -/

namespace AutomatonState

/-- Holds when the state has an item with at least the given lookaheads. -/
def covers (state : AutomatonState) (item : Item) (lookahead : KindSet) : Bool :=
  state.items.any fun (other, kinds) ↦ other = item && kinds.includes lookahead

/-- Holds when the symbol that an item waits for leads to a state with the item after it. -/
def advances (a : Automaton) (state : AutomatonState) (item : Item) (lookahead : KindSet) : Bool :=
  item.next?.all fun symbol ↦
    (state.next.lookup symbol).any fun q ↦
      (a[q]?).any fun target ↦ target.covers item.advance lookahead

/-- Holds when the rules for the part that an item waits for are under way too. -/
def starts (state : AutomatonState) (item : Item) (lookahead : KindSet) : Bool :=
  match item.next? with
  | some (.nonterminal part) =>
    let kinds := (beginnings.ofSymbols ⟨true, lookahead⟩ item.rest).first
    (productionsOf part).all fun p ↦ state.covers ⟨p, 0⟩ kinds
  | _ => true

/-- What to do with a token behind a complete rule. -/
def completion (p : Production) : Action :=
  if p = .accept then .accept else .reduce p

/-- Holds when the rule of a complete item is applied in front of all of its lookaheads. -/
def completes (state : AutomatonState) (item : Item) (lookahead : KindSet) : Bool :=
  item.next?.isSome ||
    lookahead.toList.all fun kind ↦ state.action kind = some (completion item.production)

/-- Holds when a diagram is complete at the end of the input only. -/
def acceptsAtEnd (state : AutomatonState) : Bool :=
  Kind.all.all fun kind ↦ state.action kind ≠ some .accept || kind = .endOfInput

end AutomatonState

namespace Automaton

/-- Holds when all states are as they have to be. -/
def isValid (a : Automaton) : Bool :=
  a.toList.all (fun state ↦
    state.acceptsAtEnd && state.items.all fun (item, lookahead) ↦
      state.advances a item lookahead && state.starts item lookahead &&
        state.completes item lookahead) &&
    (a[0]?).any fun state ↦ state.covers ⟨.accept, 0⟩ (.single .endOfInput)

/-- The beginnings of the parts pass the check. -/
theorem beginnings_isClosed : beginnings.isClosed = true := by
  decide +kernel

/-- The automaton of the grammar passes the check. -/
theorem ofGrammar_isValid : ofGrammar.isValid = true := by
  decide +kernel

/-- Holds when in state `q` an item is under way and `kind` may follow the part that it makes. -/
def Awaits (a : Automaton) (q : Nat) (item : Item) (kind : Kind) : Prop :=
  ∃ state lookahead, a[q]? = some state ∧ (item, lookahead) ∈ state.items ∧
    lookahead.contains kind = true

private theorem awaits_of_covers {a : Automaton} {q : Nat} {state : AutomatonState} {item : Item}
    {lookahead : KindSet} {kind : Kind} (hq : a[q]? = some state)
    (h : state.covers item lookahead = true) (hkind : lookahead.contains kind = true) :
    a.Awaits q item kind := by
  obtain ⟨⟨other, kinds⟩, hmem, h⟩ := List.any_eq_true.1 h
  rw [Bool.and_eq_true, decide_eq_true_iff] at h
  obtain ⟨rfl, hincludes⟩ := h
  exact ⟨state, kinds, hq, hmem, KindSet.contains_of_includes hincludes hkind⟩

variable {a : Automaton}

private theorem item_of_isValid (h : a.isValid = true) {q : Nat} {state : AutomatonState}
    {item : Item} {lookahead : KindSet} (hq : a[q]? = some state)
    (hitem : (item, lookahead) ∈ state.items) :
    state.advances a item lookahead = true ∧ state.starts item lookahead = true ∧
      state.completes item lookahead = true := by
  have hstate := List.all_eq_true.1 (Bool.and_eq_true_iff.1 h).1 state
    (Array.mem_toList_iff.2 (Array.mem_of_getElem? hq))
  have := List.all_eq_true.1 (Bool.and_eq_true_iff.1 hstate).2 (item, lookahead) hitem
  simpa only [Bool.and_eq_true, and_assoc] using this

/-- A parse begins in front of a whole diagram and the end of the input. -/
theorem awaits_initial (h : a.isValid = true) : a.Awaits 0 ⟨.accept, 0⟩ .endOfInput := by
  obtain ⟨state, hstate, hcovers⟩ := (Option.any_eq_true _ _).1 (Bool.and_eq_true_iff.1 h).2
  exact awaits_of_covers hstate hcovers
    ((KindSet.contains_single .endOfInput .endOfInput).trans (decide_eq_true rfl))

/-- The symbol that an item waits for leads to a state with the item after it. -/
theorem Awaits.advance (h : a.isValid = true) {q : Nat} {item : Item} {kind : Kind}
    (hitem : a.Awaits q item kind) {symbol : Symbol} (hnext : item.next? = some symbol) :
    ∃ state target, a[q]? = some state ∧ state.next.lookup symbol = some target ∧
      a.Awaits target item.advance kind := by
  obtain ⟨state, lookahead, hq, hmem, hkind⟩ := hitem
  have hadvances := (item_of_isValid h hq hmem).1
  simp only [AutomatonState.advances, hnext, Option.all_some, Option.any_eq_true] at hadvances
  obtain ⟨target, htarget, next, hnext, hcovers⟩ := hadvances
  exact ⟨state, target, hq, htarget, awaits_of_covers hnext hcovers hkind⟩

/-- Where an item waits for a part, the rules for that part are under way. What follows the part
begins with what the rest of the item derives, or else with what follows the item. -/
theorem Awaits.start (h : a.isValid = true) {q : Nat} {item : Item} {kind : Kind}
    (hitem : a.Awaits q item kind) {p : Production}
    (hnext : item.next? = some (.nonterminal p.lhs)) {kinds : List Kind}
    (hrest : Derives item.rest kinds) : a.Awaits q ⟨p, 0⟩ (kinds.headD kind) := by
  obtain ⟨state, lookahead, hq, hmem, hkind⟩ := hitem
  have hstarts := (item_of_isValid h hq hmem).2.1
  simp only [AutomatonState.starts, hnext] at hstarts
  have hp : p ∈ productionsOf p.lhs := List.mem_filter.2 ⟨p.mem_all, decide_eq_true rfl⟩
  exact awaits_of_covers hq (List.all_eq_true.1 hstarts p hp)
    (Beginnings.contains_headD beginnings_isClosed hrest hkind)

/-- Behind a complete rule the rule is applied. -/
theorem Awaits.complete (h : a.isValid = true) {q : Nat} {item : Item} {kind : Kind}
    (hitem : a.Awaits q item kind) (hnext : item.next? = none) :
    ∃ state, a[q]? = some state ∧
      state.action kind = some (AutomatonState.completion item.production) := by
  obtain ⟨state, lookahead, hq, hmem, hkind⟩ := hitem
  have hcompletes := (item_of_isValid h hq hmem).2.2
  simp only [AutomatonState.completes, hnext, Option.isSome_none, Bool.false_or,
    List.all_eq_true] at hcompletes
  have hmem : kind ∈ lookahead.toList := List.mem_filter.2 ⟨kind.mem_all, hkind⟩
  exact ⟨state, hq, of_decide_eq_true (hcompletes kind hmem)⟩

/-- The symbol that an item waits for leads on, whatever may follow the item. -/
theorem exists_lookup_of_next? (h : a.isValid = true) {q : Nat} {state : AutomatonState}
    {item : Item} {lookahead : KindSet} (hq : a[q]? = some state)
    (hitem : (item, lookahead) ∈ state.items) {symbol : Symbol} (hnext : item.next? = some symbol) :
    ∃ target, state.next.lookup symbol = some target := by
  have hadvances := (item_of_isValid h hq hitem).1
  simp only [AutomatonState.advances, hnext, Option.all_some, Option.any_eq_true] at hadvances
  obtain ⟨target, htarget, -⟩ := hadvances
  exact ⟨target, htarget⟩

/-- A diagram is complete at the end of the input only. -/
theorem endOfInput_of_action_accept (h : a.isValid = true) {q : Nat} {state : AutomatonState}
    {kind : Kind} (hq : a[q]? = some state) (haction : state.action kind = some .accept) :
    kind = .endOfInput := by
  have hstate := List.all_eq_true.1 (Bool.and_eq_true_iff.1 h).1 state
    (Array.mem_toList_iff.2 (Array.mem_of_getElem? hq))
  have := List.all_eq_true.1 (Bool.and_eq_true_iff.1 hstate).1 kind kind.mem_all
  simpa [haction] using this

end Automaton

end BlockDiagram.Grammar
