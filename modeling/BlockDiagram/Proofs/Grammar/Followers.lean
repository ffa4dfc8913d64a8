import BlockDiagram.Proofs.Grammar.Beginnings
import Mathlib.Data.List.Chain

/-!
# What may follow

Which token kinds may stand behind others. Behind a run of kinds that is a matter of the whole run
(`MayFollow`). Directly behind one token, in any diagram, it can be read off the rules: `neighbours`
has the kinds that a part or a token may be followed by, found from the beginnings of what is behind
it in a rule (`mayTouch_iff`).
-/

namespace BlockDiagram.Grammar

open Token (Kind)

/-- Holds when some diagram begins with kinds. -/
def Continues (kinds : List Kind) : Prop :=
  ∃ rest, Accepts (kinds ++ rest)

/-- Holds when some diagram, with the end of the input behind it, begins with kinds and one more. -/
def MayFollow (kinds : List Kind) (kind : Kind) : Prop :=
  ∃ diagram, Accepts diagram ∧ kinds ++ [kind] <+: diagram ++ [.endOfInput]

/-- Holds when in some diagram, with the end of the input behind it, a kind stands directly behind a
token of kind `last`, or in front of everything if there is no such token. -/
def MayTouch (last : Option Kind) (kind : Kind) : Prop :=
  ∃ kinds, kinds.getLast? = last ∧ MayFollow kinds kind

/-- What may follow kinds may stand directly behind the last of them. -/
theorem MayFollow.mayTouch {kinds : List Kind} {kind : Kind} (h : MayFollow kinds kind) :
    MayTouch kinds.getLast? kind :=
  ⟨kinds, rfl, h⟩

/-- In a diagram every kind may follow those in front of it. -/
theorem mayFollow_of_accepts {kinds : List Kind} {kind : Kind} (rest : List Kind)
    (h : Accepts (kinds ++ kind :: rest)) : MayFollow kinds kind :=
  ⟨_, h, rest ++ [.endOfInput], by simp⟩

/-- A whole source is a diagram. -/
theorem accepts_of_derives_accept {kinds : List Kind} (h : Derives [.nonterminal .accept] kinds) :
    Accepts kinds := by
  generalize hsymbols : [Symbol.nonterminal .accept] = symbols at h
  cases h with
  | done => cases hsymbols
  | terminal h => cases hsymbols
  | nonterminal p hp h =>
    obtain ⟨hlhs, rfl⟩ := List.cons.inj hsymbols
    cases h
    rw [List.append_nil]
    cases p <;> cases hlhs
    exact hp

private theorem endOfInput_not_mem_of_accepts {kinds : List Kind} (h : Accepts kinds) :
    Kind.endOfInput ∉ kinds :=
  Derives.endOfInput_not_mem h (by decide)

/-- The input does not end inside a diagram. -/
theorem endOfInput_not_mem_of_continues {kinds : List Kind} (h : Continues kinds) :
    Kind.endOfInput ∉ kinds := by
  obtain ⟨rest, hrest⟩ := h
  exact fun hmem ↦ endOfInput_not_mem_of_accepts hrest (List.mem_append_left _ hmem)

/-- The end of the input may follow whole diagrams only. -/
theorem mayFollow_endOfInput_iff {kinds : List Kind} :
    MayFollow kinds .endOfInput ↔ Accepts kinds := by
  constructor
  · rintro ⟨diagram, hdiagram, rest, hrest⟩
    rw [List.append_assoc, List.singleton_append] at hrest
    rcases List.eq_nil_or_concat rest with rfl | ⟨rest, last, rfl⟩
    · rwa [(List.append_inj' hrest rfl).1]
    · rw [List.concat_eq_append, ← List.cons_append, ← List.append_assoc] at hrest
      have hmem : Kind.endOfInput ∈ diagram := by
        rw [← (List.append_inj' hrest rfl).1]
        exact List.mem_append_right _ List.mem_cons_self
      exact absurd hmem (endOfInput_not_mem_of_accepts hdiagram)
  · intro h
    exact ⟨kinds, h, List.prefix_rfl⟩

/-! ### Parts of diagrams -/

private theorem Nonterminal.mem_all (part : Nonterminal) : part ∈ all := by
  cases part <;> decide

/-- Holds for parts that stand in some diagram, whatever they stand for. -/
def Occurs (part : Nonterminal) : Prop :=
  ∃ front back, ∀ kinds, Derives [.nonterminal part] kinds → Accepts (front ++ kinds ++ back)

private theorem Occurs.of_mem (p : Production) (h : Occurs p.lhs) {part : Nonterminal}
    (hmem : .nonterminal part ∈ p.rhs) : Occurs part := by
  obtain ⟨left, right, hrhs⟩ := List.append_of_mem hmem
  obtain ⟨front, back, hpart⟩ := h
  obtain ⟨before, hbefore⟩ := exists_derives left
  obtain ⟨behind, hbehind⟩ := exists_derives right
  refine ⟨front ++ before, behind ++ back, fun kinds hkinds ↦ ?_⟩
  have hwhole := hpart _ (.of_production p (hrhs ▸ hbefore.append (hkinds.append hbehind)))
  simpa only [List.append_assoc] using hwhole

/-- Every part stands in some diagram. -/
theorem occurs (part : Nonterminal) : Occurs part := by
  have accept : Occurs .accept := ⟨[], [], fun kinds hkinds ↦ by
    rw [List.nil_append, List.append_nil]
    exact accepts_of_derives_accept hkinds⟩
  have start : Occurs .start := .of_mem .accept accept (by decide)
  have document : Occurs .document := .of_mem .start start (by decide)
  have statement : Occurs .statement := .of_mem .documentMore document (by decide)
  have nodeStatement : Occurs .nodeStatement := .of_mem .nodes statement (by decide)
  have sizedNode : Occurs .sizedNode := .of_mem .chainStart nodeStatement (by decide)
  have node : Occurs .node := .of_mem .unsizedNode sizedNode (by decide)
  have shape : Occurs .shape := .of_mem .shapedNode node (by decide)
  cases part with
  | accept => exact accept
  | start => exact start
  | document => exact document
  | statement => exact statement
  | blockStatement => exact .of_mem .block statement (by decide)
  | nodeStatement => exact nodeStatement
  | sizedNode => exact sizedNode
  | node => exact node
  | shape => exact shape
  | directions => exact .of_mem .arrowShape shape (by decide)
  | link => exact .of_mem .chainLink nodeStatement (by decide)
  | text => exact .of_mem .labelledShape shape (by decide)

/-! ### Followers of symbols -/

/-- Holds when a kind may stand behind a symbol in some diagram, whatever the symbol stands for. -/
def Follows (symbol : Symbol) (kind : Kind) : Prop :=
  ∃ front, ∀ kinds, Derives [symbol] kinds → MayFollow (front ++ kinds) kind

/-- The kinds that are known to follow each part. -/
abbrev Followers := List (Nonterminal × KindSet)

namespace Followers

/-- The kinds that may follow a part. -/
def of (fs : Followers) (part : Nonterminal) : KindSet :=
  (fs.lookup part).getD .empty

/-- The kinds that symbols begin with at the end of a part, and what follows the part. -/
def ahead (fs : Followers) (part : Nonterminal) (symbols : List Symbol) : KindSet :=
  (beginnings.ofSymbols ⟨true, fs.of part⟩ symbols).first

/-- The kinds that may follow a symbol where it stands among symbols at the end of a part. -/
def among (fs : Followers) (part : Nonterminal) (symbol : Symbol) : List Symbol → KindSet
  | [] => .empty
  | other :: rest =>
    let kinds := fs.among part symbol rest
    if other = symbol then (fs.ahead part rest).union kinds else kinds

/-- The kinds that may follow a symbol where it stands in a rule. -/
def behind (fs : Followers) (symbol : Symbol) : KindSet :=
  Production.all.foldl (fun kinds p ↦ kinds.union (fs.among p.lhs symbol p.rhs)) .empty

/-- The kinds that follow from the rules and from what is known. -/
def next (fs : Followers) : Followers :=
  fs.map fun (part, kinds) ↦ (part, kinds.union (fs.behind (.nonterminal part)))

/-- Holds when nothing new follows from the rules. -/
def isClosed (fs : Followers) : Bool :=
  (fs.of .accept).contains .endOfInput &&
    Nonterminal.all.all fun part ↦ (fs.of part).includes (fs.behind (.nonterminal part))

/-- Holds when all that is known to follow a part may follow it. -/
def IsSound (fs : Followers) : Prop :=
  ∀ part kinds, (part, kinds) ∈ fs → ∀ kind, kinds.contains kind = true →
    Follows (.nonterminal part) kind

end Followers

/-- The kinds that may follow each part of a diagram. -/
def followers : Followers :=
  untilStable Followers.next Nonterminal.all.length
    (Nonterminal.all.map fun part ↦
      (part, if part = .accept then .single .endOfInput else .empty))

/-- The kinds that may stand directly behind a token, or in front of everything. -/
def neighbours : Option Kind → KindSet
  | some last => followers.behind (.terminal last)
  | none => (beginnings.ofSymbols ⟨true, .single .endOfInput⟩ [.nonterminal .start]).first

/-! ### All that is found may follow -/

namespace Followers

variable {fs : Followers} {symbol : Symbol} {kind : Kind}

private theorem contains_among_iff {part : Nonterminal} {symbols : List Symbol} :
    (fs.among part symbol symbols).contains kind = true ↔
      ∃ left right, symbols = left ++ symbol :: right ∧
        (fs.ahead part right).contains kind = true := by
  induction symbols with
  | nil => simp [among]
  | cons other rest ih =>
    have hrest : (∃ left right, rest = left ++ symbol :: right ∧
        (fs.ahead part right).contains kind = true) →
        ∃ left right, other :: rest = left ++ symbol :: right ∧
          (fs.ahead part right).contains kind = true := by
      rintro ⟨left, right, rfl, hkind⟩
      exact ⟨other :: left, right, rfl, hkind⟩
    rw [among]
    split
    · next heq =>
      rw [KindSet.contains_union, Bool.or_eq_true, ih]
      constructor
      · rintro (hkind | hbehind)
        · exact ⟨[], rest, congrArg (· :: rest) heq, hkind⟩
        · exact hrest hbehind
      · rintro ⟨left, right, hsymbols, hkind⟩
        rcases List.cons_eq_append_iff.1 hsymbols with ⟨rfl, hright⟩ | ⟨left, rfl, hrest⟩
        · obtain ⟨-, rfl⟩ := List.cons.inj hright
          exact .inl hkind
        · exact .inr ⟨left, right, hrest, hkind⟩
    · next hne =>
      rw [ih]
      refine ⟨hrest, ?_⟩
      rintro ⟨left, right, hsymbols, hkind⟩
      rcases List.cons_eq_append_iff.1 hsymbols with ⟨rfl, hright⟩ | ⟨left, rfl, hrest⟩
      · exact absurd (List.cons.inj hright).1.symm hne
      · exact ⟨left, right, hrest, hkind⟩

/-- What follows a symbol is ahead of it in some rule. -/
theorem contains_behind_iff : (fs.behind symbol).contains kind = true ↔
    ∃ (p : Production) (left right : List Symbol), p.rhs = left ++ symbol :: right ∧
      (fs.ahead p.lhs right).contains kind = true := by
  rw [behind, KindSet.contains_foldl_union]
  constructor
  · rintro (hempty | ⟨p, -, hkind⟩)
    · rw [KindSet.contains_empty] at hempty
      cases hempty
    · exact ⟨p, contains_among_iff.1 hkind⟩
  · rintro ⟨p, hkind⟩
    exact .inr ⟨p, p.mem_all, contains_among_iff.2 hkind⟩

private theorem IsSound.of (h : fs.IsSound) {part : Nonterminal}
    (hkind : (fs.of part).contains kind = true) : Follows (.nonterminal part) kind := by
  rw [Followers.of] at hkind
  cases hlookup : fs.lookup part with
  | none =>
    rw [hlookup, Option.getD_none, KindSet.contains_empty] at hkind
    cases hkind
  | some kinds =>
    rw [hlookup, Option.getD_some] at hkind
    exact h part kinds (mem_of_lookup hlookup) kind hkind

/-- What is ahead of a symbol in a rule may follow it. -/
theorem IsSound.behind (h : fs.IsSound) (hkind : (fs.behind symbol).contains kind = true) :
    Follows symbol kind := by
  obtain ⟨p, left, right, hrhs, hkind⟩ := contains_behind_iff.1 hkind
  obtain ⟨before, hbefore⟩ := exists_derives left
  -- A part around the symbol begins with what is in front of the symbol in the rule.
  have hpart {kinds others : List Kind} (hkinds : Derives [symbol] kinds)
      (hright : Derives right others) :
      Derives [.nonterminal p.lhs] (before ++ (kinds ++ others)) :=
    .of_production p (hrhs ▸ hbefore.append (hkinds.append hright))
  rcases (beginnings_isSound.ofSymbols (fs.of p.lhs) right).first kind hkind with
    ⟨others, hright⟩ | ⟨hright, hfollows⟩
  · obtain ⟨front, back, hoccurs⟩ := occurs p.lhs
    refine ⟨front ++ before, fun kinds hkinds ↦ mayFollow_of_accepts (others ++ back) ?_⟩
    simpa only [List.append_assoc, List.cons_append] using hoccurs _ (hpart hkinds hright)
  · obtain ⟨front, hfront⟩ := h.of hfollows
    refine ⟨front ++ before, fun kinds hkinds ↦ ?_⟩
    simpa only [List.append_assoc, List.append_nil] using hfront _ (hpart hkinds hright)

/-- What follows from the rules and from what is known is right. -/
theorem IsSound.next (h : fs.IsSound) : fs.next.IsSound := by
  intro part kinds hmem kind hkind
  obtain ⟨⟨part, old⟩, hold, heq⟩ := List.mem_map.1 hmem
  cases heq
  rw [KindSet.contains_union, Bool.or_eq_true] at hkind
  exact hkind.elim (h part old hold kind) h.behind

end Followers

private theorem followers_isSound : followers.IsSound := by
  refine untilStable_induction (fun fs h ↦ h.next) _ fun part kinds hmem kind hkind ↦ ?_
  obtain ⟨part, -, heq⟩ := List.mem_map.1 hmem
  cases heq
  split at hkind
  · next haccept =>
    subst haccept
    rw [KindSet.contains_single, decide_eq_true_eq] at hkind
    subst hkind
    exact ⟨[], fun kinds hkinds ↦ mayFollow_endOfInput_iff.2 (accepts_of_derives_accept hkinds)⟩
  · rw [KindSet.contains_empty] at hkind
    cases hkind

/-! ### All that may follow is found -/

private theorem followers_isClosed : followers.isClosed = true := by
  decide +kernel

/-- In what stands at the end of a part, every kind is a neighbour of the one in front of it, and
what follows the part is one of the last. -/
theorem isChain_of_derives {symbols : List Symbol} {kinds : List Kind} (h : Derives symbols kinds)
    (p : Production) (left : List Symbol) (hrhs : p.rhs = left ++ symbols) {next : Kind}
    (hnext : (followers.of p.lhs).contains next = true) :
    (kinds ++ [next]).IsChain fun last kind ↦ (neighbours (some last)).contains kind = true := by
  induction h generalizing p left next with
  | done => exact .singleton next
  | @terminal kind symbols kinds h ih =>
    have hrest := ih p (left ++ [.terminal kind])
      (by rw [hrhs, List.append_assoc, List.singleton_append]) hnext
    have hahead := Beginnings.contains_headD Automaton.beginnings_isClosed h hnext
    have hbehind : (neighbours (some kind)).contains (kinds.headD next) = true :=
      Followers.contains_behind_iff.2 ⟨p, left, symbols, hrhs, hahead⟩
    refine List.isChain_cons.2 ⟨fun first hfirst ↦ ?_, hrest⟩
    cases kinds with
    | nil =>
      obtain rfl := Option.some.inj hfirst
      exact hbehind
    | cons other kinds =>
      obtain rfl := Option.some.inj hfirst
      exact hbehind
  | @nonterminal symbols front back p' hp h ihp ih =>
    have hahead := Beginnings.contains_headD Automaton.beginnings_isClosed h hnext
    have hpart : (followers.of p'.lhs).contains (back.headD next) = true := by
      have hclosed := List.all_eq_true.1 (Bool.and_eq_true_iff.1 followers_isClosed).2 p'.lhs
        p'.lhs.mem_all
      exact KindSet.contains_of_includes hclosed
        (Followers.contains_behind_iff.2 ⟨p, left, symbols, hrhs, hahead⟩)
    have hinner := ihp p' [] rfl hpart
    have hrest := ih p (left ++ [.nonterminal p'.lhs])
      (by rw [hrhs, List.append_assoc, List.singleton_append]) hnext
    rw [List.append_assoc]
    cases back with
    | nil => exact hinner
    | cons first back => exact List.isChain_split.2 ⟨hinner, hrest⟩

/-- What may stand directly behind a kind is what the rules allow there. -/
theorem mayTouch_iff {last : Option Kind} {kind : Kind} :
    MayTouch last kind ↔ (neighbours last).contains kind = true := by
  constructor
  · rintro ⟨kinds, hlast, diagram, hdiagram, rest, hrest⟩
    cases last with
    | none =>
      obtain rfl := List.getLast?_eq_none_iff.1 hlast
      have hahead := Beginnings.contains_headD Automaton.beginnings_isClosed hdiagram
        ((KindSet.contains_single .endOfInput .endOfInput).trans (decide_eq_true rfl))
      have hhead : diagram.headD .endOfInput = kind := by
        cases diagram with
        | nil => exact (List.cons.inj hrest).1.symm
        | cons first diagram => exact (List.cons.inj hrest).1.symm
      rwa [hhead] at hahead
    | some last =>
      obtain ⟨front, rfl⟩ := List.getLast?_eq_some_iff.1 hlast
      have hchain := isChain_of_derives hdiagram .accept [] rfl
        (Bool.and_eq_true_iff.1 followers_isClosed).1
      rw [← hrest, List.append_assoc, List.append_assoc, List.singleton_append] at hchain
      exact (List.isChain_cons.1 (List.isChain_split.1 hchain).2).1 kind rfl
  · intro hkind
    cases last with
    | none =>
      refine ⟨[], rfl, ?_⟩
      rcases (beginnings_isSound.ofSymbols _ _).first kind hkind with ⟨rest, hrest⟩ | ⟨hempty, hend⟩
      · exact mayFollow_of_accepts rest hrest
      · rw [KindSet.contains_single, decide_eq_true_eq] at hend
        rw [hend]
        exact mayFollow_endOfInput_iff.2 hempty
    | some last =>
      obtain ⟨front, hfront⟩ := followers_isSound.behind hkind
      exact ⟨front ++ [last], List.getLast?_concat, hfront [last] (.terminal .done)⟩

end BlockDiagram.Grammar
