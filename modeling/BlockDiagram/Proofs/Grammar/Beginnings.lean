import BlockDiagram.Proofs.Grammar.Derivation
import BlockDiagram.Proofs.Grammar.Validity

/-!
# What parts begin with

The beginnings of a part are exactly the kinds that some text of it starts with: `Validity` has that
all of them are found, and here nothing else is (`beginnings_isSound`). Every run of symbols stands
for some text (`exists_derives`), so each of its beginnings can be completed.
-/

namespace BlockDiagram.Grammar

open Token (Kind)

/-- What is collected in a set is in one of its parts. -/
theorem KindSet.contains_foldl_union {α : Type} {f : α → KindSet} {as : List α} {s : KindSet}
    {kind : Kind} : (as.foldl (fun kinds a ↦ kinds.union (f a)) s).contains kind = true ↔
      s.contains kind = true ∨ ∃ a ∈ as, (f a).contains kind = true := by
  induction as generalizing s with
  | nil => simp
  | cons a as ih =>
    rw [List.foldl_cons, ih]
    simp [or_assoc]

/-! ### Every symbol stands for something -/

private theorem exists_derives_part (part : Nonterminal) :
    ∃ kinds, Derives [.nonterminal part] kinds := by
  have document : Derives [.nonterminal .document] [] := .of_production .documentEnd .done
  have start : Derives [.nonterminal .start] [.diagram] :=
    .of_production .start (.terminal document)
  have node : Derives [.nonterminal .node] [.nodeId] := .of_production .bareNode (.terminal .done)
  have sizedNode : Derives [.nonterminal .sizedNode] [.nodeId] := .of_production .unsizedNode node
  cases part with
  | accept => exact ⟨_, .of_production .accept start⟩
  | start => exact ⟨_, start⟩
  | document => exact ⟨_, document⟩
  | statement => exact ⟨_, .of_production .columns (.terminal .done)⟩
  | blockStatement =>
    exact ⟨_, .of_production .anonymousBlock (.terminal (document.append (.terminal .done)))⟩
  | nodeStatement => exact ⟨_, .of_production .chainStart sizedNode⟩
  | sizedNode => exact ⟨_, sizedNode⟩
  | node => exact ⟨_, node⟩
  | shape => exact ⟨_, .of_production .emptyShape (.terminal (.terminal .done))⟩
  | directions => exact ⟨_, .of_production .lastDirection (.terminal .done)⟩
  | link => exact ⟨_, .of_production .plainLink (.terminal .done)⟩
  | text => exact ⟨_, .of_production .plainText (.terminal .done)⟩

/-- Every run of symbols can stand for something. -/
theorem exists_derives (symbols : List Symbol) : ∃ kinds, Derives symbols kinds := by
  induction symbols with
  | nil => exact ⟨[], .done⟩
  | cons symbol symbols ih =>
    obtain ⟨rest, hrest⟩ := ih
    cases symbol with
    | terminal kind => exact ⟨_, .terminal hrest⟩
    | nonterminal part =>
      obtain ⟨kinds, hkinds⟩ := exists_derives_part part
      exact ⟨_, hkinds.append hrest⟩

/-! ### Nothing else begins a part -/

/-- Holds when a run of symbols can begin in the given ways, where `behind` follows it. -/
structure Beginning.IsSoundFor (b : Beginning) (symbols : List Symbol) (behind : KindSet) :
    Prop where
  nullable : b.nullable = true → Derives symbols []
  first : ∀ kind, b.first.contains kind = true → (∃ kinds, Derives symbols (kind :: kinds)) ∨
    Derives symbols [] ∧ behind.contains kind = true

namespace Beginnings

/-- Holds when every part can begin in all the ways that are known for it. -/
def IsSound (bs : Beginnings) : Prop :=
  ∀ part b, (part, b) ∈ bs → b.IsSoundFor [.nonterminal part] .empty

variable {bs : Beginnings}

private theorem IsSound.of (h : bs.IsSound) (part : Nonterminal) :
    (bs.of part).IsSoundFor [.nonterminal part] .empty := by
  rw [Beginnings.of]
  cases hlookup : bs.lookup part with
  | none =>
    refine ⟨Bool.noConfusion, fun kind hkind ↦ ?_⟩
    rw [Option.getD_none, KindSet.contains_empty] at hkind
    cases hkind
  | some b => exact h part b (mem_of_lookup hlookup)

/-- What is known of parts is right for runs of symbols. -/
theorem IsSound.ofSymbols (h : bs.IsSound) (behind : KindSet) (symbols : List Symbol) :
    (bs.ofSymbols ⟨true, behind⟩ symbols).IsSoundFor symbols behind := by
  induction symbols with
  | nil => exact ⟨fun _ ↦ .done, fun kind hkind ↦ .inr ⟨.done, hkind⟩⟩
  | cons symbol symbols ih =>
    obtain ⟨rest, hrest⟩ := exists_derives symbols
    cases symbol with
    | terminal kind =>
      refine ⟨Bool.noConfusion, fun other hother ↦ .inl ⟨rest, ?_⟩⟩
      rw [Beginnings.ofSymbols, KindSet.contains_single, decide_eq_true_eq] at hother
      rw [hother]
      exact .terminal hrest
    | nonterminal part =>
      have hpart := h.of part
      have hbegins {kind : Kind} (hkind : (bs.of part).first.contains kind = true) :
          ∃ kinds, Derives (.nonterminal part :: symbols) (kind :: kinds) := by
        rcases hpart.first kind hkind with ⟨kinds, hkinds⟩ | ⟨-, hempty⟩
        · exact ⟨_, hkinds.append hrest⟩
        · rw [KindSet.contains_empty] at hempty
          cases hempty
      rw [Beginnings.ofSymbols]
      dsimp only
      split
      · next hnullable =>
        have hempty := hpart.nullable hnullable
        refine ⟨fun hnullable' ↦ hempty.append (ih.nullable hnullable'), fun kind hkind ↦ ?_⟩
        rw [KindSet.contains_union, Bool.or_eq_true] at hkind
        rcases hkind with hkind | hkind
        · exact .inl (hbegins hkind)
        · rcases ih.first kind hkind with ⟨kinds, hkinds⟩ | ⟨hempty', hkind⟩
          · exact .inl ⟨kinds, hempty.append hkinds⟩
          · exact .inr ⟨hempty.append hempty', hkind⟩
      · next hnullable =>
        exact ⟨fun hnullable' ↦ absurd hnullable' hnullable, fun kind hkind ↦ .inl (hbegins hkind)⟩

/-- What follows from the rules and from what is known is right. -/
theorem IsSound.next (h : bs.IsSound) : bs.next.IsSound := by
  intro part b hb
  obtain ⟨⟨part, old⟩, -, heq⟩ := List.mem_map.1 hb
  cases heq
  have hrules : ∀ b ∈ (productionsOf part).map fun p ↦ bs.ofSymbols ⟨true, .empty⟩ p.rhs,
      b.IsSoundFor [.nonterminal part] .empty := by
    intro b hb
    obtain ⟨p, hp, rfl⟩ := List.mem_map.1 hb
    obtain rfl := of_decide_eq_true (List.mem_filter.1 hp).2
    have hrhs := h.ofSymbols .empty p.rhs
    exact {
      nullable := fun hnullable ↦ .of_production p (hrhs.nullable hnullable)
      first := fun kind hkind ↦
        (hrhs.first kind hkind).imp (fun ⟨kinds, hkinds⟩ ↦ ⟨kinds, .of_production p hkinds⟩)
          fun ⟨hempty, hkind⟩ ↦ ⟨.of_production p hempty, hkind⟩ }
  refine ⟨fun hnullable ↦ ?_, fun kind hkind ↦ ?_⟩
  · obtain ⟨b, hb, hnullable⟩ := List.any_eq_true.1 hnullable
    exact (hrules b hb).nullable hnullable
  · rcases KindSet.contains_foldl_union.1 hkind with hempty | ⟨b, hb, hkind⟩
    · rw [KindSet.contains_empty] at hempty
      cases hempty
    · exact (hrules b hb).first kind hkind

end Beginnings

/-- What every step keeps holds in the end. -/
theorem untilStable_induction {α : Type} [DecidableEq α] {f : α → α} {P : α → Prop}
    (hstep : ∀ x, P x → P (f x)) (fuel : Nat) {x : α} (h : P x) : P (untilStable f fuel x) := by
  induction fuel generalizing x with
  | zero => exact h
  | succ fuel ih =>
    rw [untilStable]
    split
    · exact h
    · exact ih (hstep x h)

/-- The beginnings of the parts are right. -/
theorem beginnings_isSound : beginnings.IsSound := by
  refine untilStable_induction (fun bs h ↦ h.next) _ fun part b hb ↦ ?_
  obtain ⟨part, -, heq⟩ := List.mem_map.1 hb
  cases heq
  refine ⟨Bool.noConfusion, fun kind hkind ↦ ?_⟩
  rw [KindSet.contains_empty] at hkind
  cases hkind

end BlockDiagram.Grammar
