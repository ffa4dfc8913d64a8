import BlockDiagram.Lexer
import BlockDiagram.Proofs.Lexer.Greedy

/-!
# Reading rules

Every rule of the lexer reads as far as its pattern matches (`takesLongest_of_mem_rules`). Most are
read as they are written, and there the next character tells what to do. Plain and thick links are
not: which part of the pattern the last character of their line belongs to depends on what follows.
-/

namespace BlockDiagram.Lexer

open Regex Pattern

variable {line : Char} {text rest near far : List Char}

/-! ### Classes of characters -/

private theorem forall_imp_ne_iff {p : Char → Prop} {d : Char} :
    (∀ c, p c → ¬ c = d) ↔ ¬ p d := by
  constructor
  · intro h hd
    exact h d hd rfl
  · rintro h c hc rfl
    exact h hc

private theorem toNat_between {a b c : Char} (ha : a.val ≤ c.val) (hb : c.val ≤ b.val) :
    a.toNat ≤ c.toNat ∧ c.toNat ≤ b.toNat :=
  ⟨UInt32.le_iff_toNat_le.1 ha, UInt32.le_iff_toNat_le.1 hb⟩

/-- The word characters lie between the digit zero and the last letter. -/
theorem toNat_of_isWordChar {c : Char} (h : isWordChar c = true) :
    48 ≤ c.toNat ∧ c.toNat ≤ 122 := by
  obtain halphanum | hunderscore := (Bool.or_eq_true _ _).mp h
  · obtain halpha | hdigit := (Bool.or_eq_true _ _).mp halphanum
    · obtain hupper | hlower := (Bool.or_eq_true _ _).mp halpha
      · obtain ⟨ha, hb⟩ := of_decide_eq_true hupper
        have hcode : 65 ≤ c.toNat ∧ c.toNat ≤ 90 := toNat_between ha hb
        omega
      · obtain ⟨ha, hb⟩ := Bool.and_eq_true_iff.1 hlower
        have hcode : 97 ≤ c.toNat ∧ c.toNat ≤ 122 :=
          toNat_between (of_decide_eq_true ha) (of_decide_eq_true hb)
        omega
    · obtain ⟨ha, hb⟩ := Bool.and_eq_true_iff.1 hdigit
      have hcode : 48 ≤ c.toNat ∧ c.toNat ≤ 57 :=
        toNat_between (of_decide_eq_true ha) (of_decide_eq_true hb)
      omega
  · rw [eq_of_beq hunderscore]
    decide

/-- No blank character is part of a word. -/
theorem isWordChar_of_isBlank {c : Char} (h : Text.isBlank c = true) : isWordChar c = false := by
  rw [← Bool.not_eq_true]
  intro hc
  obtain ⟨hlow, hhigh⟩ := toNat_of_isWordChar hc
  simp only [Text.isBlank, Bool.or_eq_true, Bool.and_eq_true, decide_eq_true_eq, beq_iff_eq] at h
  omega

/-- No character of a word is blank. -/
theorem isBlank_of_isWordChar {c : Char} (h : isWordChar c = true) : Text.isBlank c = false := by
  rw [← Bool.not_eq_true]
  intro hc
  rw [isWordChar_of_isBlank hc] at h
  cases h

private theorem isDigit_of_isBlank {c : Char} (h : Text.isBlank c = true) : c.isDigit = false := by
  have hword := isWordChar_of_isBlank h
  simp only [isWordChar, Char.isAlphanum, Bool.or_eq_false_iff] at hword
  exact hword.1.2

private theorem isBlank_literals :
    Text.isBlank '(' = false ∧ Text.isBlank ',' = false ∧ Text.isBlank '-' = false ∧
      Text.isBlank '=' = false ∧ Text.isBlank '.' = false ∧ Text.isBlank '~' = false ∧
      Text.isBlank '<' = false ∧ Text.isBlank '>' = false ∧ Text.isBlank 'a' = false ∧
      Text.isBlank 'd' = false ∧ Text.isBlank 'l' = false ∧ Text.isBlank 'o' = false ∧
      Text.isBlank 'r' = false ∧ Text.isBlank 'u' = false ∧ Text.isBlank 'x' = false ∧
      Text.isBlank 'y' = false := by
  decide

/-! ### Patterns that the next character tells apart -/

attribute [local simp] inOrder anyOf literal andThen just oneOf Regex.optional atLeastOnce blank
  blanks someBlanks digits word linkTail linkHeads forall_imp_ne_iff isBlank_literals forall_and

private theorem isGreedy_many_char {accepts : Char → Bool} : (many (char accepts)).IsGreedy :=
  ⟨trivial, rfl, fun _ h ↦ h.elim⟩

private theorem isGreedy_atLeastOnce_char {accepts : Char → Bool} :
    (atLeastOnce (char accepts)).IsGreedy :=
  ⟨trivial, isGreedy_many_char, fun _ h ↦ h.elim⟩

private theorem literal_cases (word : String) :
    (literal word).IsGreedy ∧ ∀ c, ¬ (literal word).GoesOn c := by
  rw [literal]
  induction word.toList with
  | nil => exact ⟨trivial, fun _ h ↦ h⟩
  | cons c cs ih =>
    refine ⟨⟨trivial, ih.1, fun _ h ↦ h.elim⟩, fun d h ↦ ?_⟩
    rcases h with h | ⟨-, h⟩
    · exact ih.2 d h
    · exact h

private theorem isGreedy_literal (word : String) : (literal word).IsGreedy :=
  (literal_cases word).1

/-- Anything may follow a text that is given as a whole. -/
theorem isGreedy_literal_seq (word : String) {r : Regex} (hr : r.IsGreedy) :
    (seq (literal word) r).IsGreedy :=
  ⟨isGreedy_literal word, hr, fun c h ↦ absurd h ((literal_cases word).2 c)⟩

private theorem isGreedy_keyword (word : String) : (keyword word).IsGreedy :=
  isGreedy_literal_seq word isGreedy_atLeastOnce_char

private theorem isGreedy_columns_auto :
    (inOrder [literal "columns", someBlanks, literal "auto", wordEnd]).IsGreedy := by
  apply isGreedy_literal_seq
  simp

private theorem isGreedy_columns_count :
    (inOrder [literal "columns", someBlanks, digits]).IsGreedy := by
  apply isGreedy_literal_seq
  simp +contextual [isDigit_of_isBlank]

/-- A mark with blanks around it. -/
theorem isGreedy_mark {mark : Char} (hmark : Text.isBlank mark = false) :
    (inOrder [blanks, just mark, blanks]).IsGreedy := by
  simp [hmark]

private theorem isGreedy_blockEnd : (inOrder [literal "end", wordEnd, blanks]).IsGreedy := by
  apply isGreedy_literal_seq
  simp

private theorem isGreedy_dottedLink : dottedLink.IsGreedy := by
  simp [dottedLink]

private theorem isGreedy_invisibleLink : invisibleLink.IsGreedy := by
  simp [invisibleLink]

private theorem isGreedy_labelledLink {start : String} (hstart : start ∈ ["--", "==", "-."]) :
    (labelledLink start).IsGreedy := by
  simp only [List.mem_cons, List.not_mem_nil, or_false] at hstart
  rcases hstart with rfl | rfl | rfl
  all_goals simp [labelledLink]

private theorem isGreedy_char_seq {accepts : Char → Bool} {r : Regex} (hr : r.IsGreedy) :
    (seq (char accepts) r).IsGreedy :=
  ⟨trivial, hr, fun _ h ↦ h.elim⟩

private theorem isGreedy_className : (inOrder [word, someBlanks]).IsGreedy := by
  simp +contextual [isBlank_of_isWordChar]

private theorem isGreedy_words : words.IsGreedy := by
  have hword : isWordChar ',' = false := by decide
  simp +contextual [words, isWordChar_of_isBlank, hword]

private theorem isGreedy_direction : Pattern.direction.IsGreedy := by
  simp [Pattern.direction]

/-! ### The line of a link -/

/-- The line of a plain or a thick link, and what closes it. -/
def linePattern (line : Char) : Regex :=
  inOrder [just line, atLeastOnce (just line), oneOf (line :: linkHeads)]

private theorem leaves_linePattern_iff :
    (linePattern line).Leaves text rest ↔
      ∃ n, ∃ c ∈ line :: linkHeads, text = List.replicate (n + 2) line ++ c :: rest := by
  simp only [Leaves, linePattern, inOrder, matches_seq_iff, matches_just_iff]
  simp only [just, matches_atLeastOnce_char_iff, oneOf, matches_char_iff, beq_iff_eq,
    List.contains_iff_mem]
  constructor
  · rintro ⟨_, rfl, _, _, rfl, rfl, run, _, rfl, ⟨hne, hrun⟩, c, hc, rfl⟩
    obtain ⟨n, hn⟩ := Nat.exists_eq_add_one_of_ne_zero (mt List.length_eq_zero_iff.1 hne)
    obtain rfl : run = List.replicate (n + 1) line := List.eq_replicate_iff.2 ⟨hn, hrun⟩
    refine ⟨n, c, hc, ?_⟩
    simp [List.replicate_succ]
  · rintro ⟨n, c, hc, rfl⟩
    refine ⟨List.replicate (n + 2) line ++ [c], by simp, [line], _, rfl, rfl,
      List.replicate (n + 1) line, [c], rfl, ⟨by simp, ?_⟩, c, hc, rfl⟩
    exact fun d hd ↦ List.eq_of_mem_replicate hd

/-- Where the line ends at a character other than its own, a match ends either before that character
or right behind it. -/
theorem linePattern_cases {k : Nat} {tail : List Char} (htail : line ∉ tail.head?)
    (h : (linePattern line).Leaves (List.replicate k line ++ tail) rest) :
    (∃ m, m + 3 ≤ k ∧ rest = List.replicate m line ++ tail) ∨
      2 ≤ k ∧ ∃ c ∈ linkHeads, tail = c :: rest := by
  obtain ⟨n, c, hc, heq⟩ := leaves_linePattern_iff.1 h
  rcases Nat.lt_trichotomy k (n + 2) with hlt | rfl | hlt
  · obtain ⟨m, hm⟩ := Nat.exists_eq_add_of_lt hlt
    rw [hm, Nat.add_assoc, ← List.replicate_append_replicate, List.append_assoc,
      List.append_cancel_left_eq, List.replicate_succ] at heq
    rw [heq] at htail
    exact absurd rfl htail
  · obtain rfl := List.append_cancel_left heq
    refine .inr ⟨Nat.le_add_left 2 n, c, ?_, rfl⟩
    exact (List.mem_cons.1 hc).resolve_left fun hline ↦ htail (congrArg some hline)
  · obtain ⟨m, rfl⟩ := Nat.exists_eq_add_of_lt hlt
    rw [Nat.add_assoc, ← List.replicate_append_replicate, List.append_assoc,
      List.append_cancel_left_eq, List.replicate_succ, List.cons_append] at heq
    exact .inl ⟨m, by omega, (List.cons.inj heq).2.symm⟩

private theorem exists_line (line : Char) (text : List Char) :
    ∃ k tail, line ∉ tail.head? ∧ text = List.replicate k line ++ tail ∧
      readLine line text =
        if k < 2 then none
        else if tail.head?.any linkHeads.contains then some tail.tail
        else if 3 ≤ k then some tail
        else none := by
  refine ⟨(text.takeWhile (· == line)).length, text.dropWhile (· == line), ?_, ?_, rfl⟩
  · intro hmem
    have hhead := List.head?_dropWhile_not (· == line) text
    rw [Option.mem_def.1 hmem] at hhead
    simp at hhead
  · have hrun : text.takeWhile (· == line) =
        List.replicate (text.takeWhile (· == line)).length line := by
      refine List.eq_replicate_iff.2 ⟨rfl, fun c hc ↦ ?_⟩
      have hall : (text.takeWhile (· == line)).all (· == line) = true := List.all_takeWhile
      exact beq_iff_eq.1 (List.all_eq_true.1 hall c hc)
    rw [← hrun, List.takeWhile_append_dropWhile]

private theorem findsLongest_readLine : FindsLongest (readLine line) (linePattern line) where
  leaves {text rest} hread := by
    obtain ⟨k, tail, -, rfl, heq⟩ := exists_line line text
    rw [heq] at hread
    rw [leaves_linePattern_iff]
    split at hread
    · cases hread
    next hk =>
    split at hread
    · next hmark =>
      obtain ⟨c, hc, hmem⟩ := (Option.any_eq_true _ _).1 hmark
      obtain ⟨_, rfl⟩ := List.head?_eq_some_iff.1 hc
      cases hread
      refine ⟨k - 2, c, List.mem_cons_of_mem line (List.contains_iff_mem.1 hmem), ?_⟩
      rw [Nat.sub_add_cancel (Nat.le_of_not_lt hk)]
      rfl
    · split at hread
      · next hlong =>
        cases hread
        obtain ⟨n, rfl⟩ := Nat.exists_eq_add_of_le' hlong
        refine ⟨n, line, List.mem_cons_self, ?_⟩
        rw [List.replicate_succ', List.append_assoc]
        rfl
      · cases hread
  exists_le {text rest} hleaves := by
    obtain ⟨k, tail, htail, rfl, heq⟩ := exists_line line text
    rw [heq]
    rcases linePattern_cases htail hleaves with ⟨m, hm, rfl⟩ | ⟨hk, c, hc, rfl⟩
    · have hlength : tail.length ≤ (List.replicate m line ++ tail).length := by simp
      rw [if_neg (show ¬ k < 2 by omega), if_pos (show 3 ≤ k by omega)]
      split
      · refine ⟨tail.tail, rfl, ?_⟩
        rw [List.length_tail]
        omega
      · exact ⟨tail, rfl, hlength⟩
    · rw [if_neg (by omega), if_pos]
      · exact ⟨rest, rfl, Nat.le_refl _⟩
      · exact (Option.any_eq_true _ _).2 ⟨c, rfl, List.contains_iff_mem.2 hc⟩

private theorem goesOnWith_linePattern : (linePattern line).GoesOnWith (· ∈ line :: linkHeads) := by
  intro text near far hnear hfar hlt
  obtain ⟨k, tail, htail, rfl, -⟩ := exists_line line text
  rcases linePattern_cases htail hnear with ⟨m, -, rfl⟩ | ⟨-, c, -, rfl⟩ <;>
    rcases linePattern_cases htail hfar with ⟨m', -, rfl⟩ | ⟨-, c', hc', heq⟩
  · cases m with
    | zero =>
      simp only [List.length_append, List.length_replicate] at hlt
      omega
    | succ m => exact ⟨line, rfl, List.mem_cons_self⟩
  · cases m with
    | zero =>
      rw [heq]
      exact ⟨c', rfl, List.mem_cons_of_mem line hc'⟩
    | succ m => exact ⟨line, rfl, List.mem_cons_self⟩
  · simp only [List.length_append, List.length_cons] at hlt
    omega
  · rw [(List.cons.inj heq).2] at hlt
    exact absurd hlt (Nat.lt_irrefl _)

/-- No part of a plain or a thick link can take what the part in front of it goes on with. -/
theorem lineLink_yields (hline : line ∈ ['-', '=']) :
    blanks.YieldsTo (· ∈ line :: linkHeads) ∧
      (seq (linePattern line) blanks).YieldsTo linkTail.GoesOn ∧
      (seq linkTail (seq (linePattern line) blanks)).YieldsTo blanks.GoesOn := by
  simp only [List.mem_cons, List.not_mem_nil, or_false] at hline
  rcases hline with rfl | rfl
  all_goals simp [linePattern]

private theorem findsLongest_readLineLink (hline : line ∈ ['-', '=']) :
    FindsLongest (readLineLink line) (lineLink line) := by
  obtain ⟨hyields₁, hyields₂, hyields₃⟩ := lineLink_yields hline
  have hblanks : FindsLongest blanks.scan blanks := findsLongest_scan isGreedy_many_char
  have htail : linkTail.IsGreedy := ⟨trivial, trivial, rfl, fun _ _ h ↦ h⟩
  have hrun := findsLongest_readLine.seq hblanks goesOnWith_linePattern hyields₁
  have hmarked := (findsLongest_scan htail).seq hrun (goesOnWith_of_isGreedy htail) hyields₂
  have hlink : FindsLongest (readLineLink line) _ :=
    hblanks.seq hmarked (goesOnWith_of_isGreedy isGreedy_many_char) hyields₃
  refine hlink.congr fun text rest ↦ ?_
  simp only [lineLink, linePattern, inOrder, leaves_seq_iff]
  constructor
  · rintro ⟨a, ha, b, hb, c, ⟨d, hd, e, he, hc⟩, hrest⟩
    exact ⟨a, ha, b, hb, d, hd, e, he, c, hc, hrest⟩
  · rintro ⟨a, ha, b, hb, d, hd, e, he, c, hc, hrest⟩
    exact ⟨a, ha, b, hb, c, ⟨d, hd, e, he, hc⟩, hrest⟩

/-! ### All rules -/

namespace Rule

/-- Holds for the rules that take the longest match of their pattern from the front of a text. -/
def TakesLongest (rule : Rule) : Prop :=
  FindsLongest rule.read rule.pattern

private theorem takesLongest_of {pattern : Regex} {kind : Option Token.Kind} {effect : Effect}
    (h : pattern.IsGreedy) : (Rule.of pattern kind effect).TakesLongest :=
  findsLongest_scan h

end Rule

open Rule

private theorem takesLongest_of_literal {words : List String} {kind : Option Token.Kind}
    {effect : Effect} :
    ∀ rule ∈ words.map fun word ↦ Rule.of (literal word) kind effect, rule.TakesLongest := by
  simp only [List.forall_mem_map]
  intro word hword
  exact takesLongest_of (isGreedy_literal word)

private theorem takesLongest_of_mem_quoteRules {plain markdown : Option Token.Kind} :
    ∀ rule ∈ quoteRules plain markdown, rule.TakesLongest :=
  List.forall_mem_cons.2 ⟨takesLongest_of (isGreedy_literal _),
    List.forall_mem_singleton.2 (takesLongest_of (isGreedy_literal _))⟩

private theorem takesLongest_of_mem_drawnLinkRules {effect : Effect} :
    ∀ rule ∈ drawnLinkRules effect, rule.TakesLongest := by
  simp only [drawnLinkRules, List.forall_mem_append, List.forall_mem_map,
    List.forall_mem_singleton]
  constructor
  · intro line hline
    exact findsLongest_readLineLink hline
  · exact takesLongest_of isGreedy_dottedLink

private theorem takesLongest_of_mem_restOfLineRules {kind : Token.Kind} :
    ∀ rule ∈ restOfLineRules kind, rule.TakesLongest :=
  List.forall_mem_singleton.2 (takesLongest_of isGreedy_many_char)

private theorem takesLongest_of_mem_initialRules : ∀ rule ∈ initialRules, rule.TakesLongest := by
  simp only [initialRules, List.forall_mem_append, List.forall_mem_cons]
  refine ⟨⟨⟨⟨⟨⟨⟨⟨?words, takesLongest_of_mem_quoteRules⟩, ?openings⟩, takesLongest_of_literal⟩,
    ?ids⟩, takesLongest_of_mem_drawnLinkRules⟩, ?invisible⟩, ?labelled⟩, ?width⟩
  case words =>
    exact ⟨takesLongest_of (isGreedy_literal_seq _ trivial), takesLongest_of (isGreedy_keyword _),
      takesLongest_of (isGreedy_literal _), takesLongest_of isGreedy_atLeastOnce_char,
      takesLongest_of (isGreedy_literal_seq _ isGreedy_many_char),
      takesLongest_of isGreedy_columns_auto, takesLongest_of isGreedy_columns_count,
      List.forall_mem_nil _⟩
  case openings =>
    exact ⟨takesLongest_of (isGreedy_literal_seq _ isGreedy_atLeastOnce_char),
      takesLongest_of (isGreedy_literal_seq _ trivial), takesLongest_of (isGreedy_keyword _),
      takesLongest_of (isGreedy_keyword _), takesLongest_of (isGreedy_keyword _),
      takesLongest_of (isGreedy_literal_seq _ (isGreedy_mark rfl)),
      takesLongest_of (isGreedy_literal_seq _ (isGreedy_mark rfl)),
      takesLongest_of (isGreedy_literal_seq _ (isGreedy_mark rfl)),
      takesLongest_of isGreedy_blockEnd, List.forall_mem_nil _⟩
  case ids =>
    exact ⟨takesLongest_of (isGreedy_literal _), takesLongest_of isGreedy_atLeastOnce_char,
      List.forall_mem_nil _⟩
  case invisible => exact ⟨takesLongest_of isGreedy_invisibleLink, List.forall_mem_nil _⟩
  case labelled =>
    simp only [List.forall_mem_map]
    intro start hstart
    exact takesLongest_of (isGreedy_labelledLink hstart)
  case width =>
    exact ⟨takesLongest_of (isGreedy_char_seq isGreedy_atLeastOnce_char), List.forall_mem_nil _⟩

/-- Whatever the mode, its rules take the longest match of their patterns. -/
theorem takesLongest_of_mem_rules (mode : Mode) : ∀ rule ∈ mode.rules, rule.TakesLongest := by
  cases mode with
  | initial => exact takesLongest_of_mem_initialRules
  | string =>
    simp only [Mode.rules, List.forall_mem_cons]
    exact ⟨takesLongest_of (isGreedy_literal _), takesLongest_of isGreedy_many_char,
      List.forall_mem_nil _⟩
  | markdown =>
    simp only [Mode.rules, List.forall_mem_cons]
    exact ⟨takesLongest_of isGreedy_atLeastOnce_char, takesLongest_of (isGreedy_literal _),
      List.forall_mem_nil _⟩
  | node => exact List.forall_mem_append.2 ⟨takesLongest_of_literal, takesLongest_of_mem_quoteRules⟩
  | blockArrow =>
    simp only [Mode.rules, List.forall_mem_append, List.forall_mem_singleton]
    refine ⟨takesLongest_of_mem_quoteRules, takesLongest_of (isGreedy_literal_seq _ ?_)⟩
    simp
  | arrowDirections =>
    simp only [Mode.rules, List.forall_mem_cons]
    exact ⟨takesLongest_of isGreedy_direction,
      takesLongest_of (isGreedy_char_seq isGreedy_many_char), List.forall_mem_nil _⟩
  | linkLabel =>
    exact List.forall_mem_append.2
      ⟨takesLongest_of_mem_quoteRules, takesLongest_of_mem_drawnLinkRules⟩
  | classDef =>
    simp only [Mode.rules, List.forall_mem_cons]
    exact ⟨takesLongest_of (isGreedy_keyword _), takesLongest_of isGreedy_className,
      List.forall_mem_nil _⟩
  | classTargets | styleTargets =>
    exact List.forall_mem_singleton.2 (takesLongest_of isGreedy_words)
  | classDefBody | classBody | styleBody | title | description =>
    exact takesLongest_of_mem_restOfLineRules
  | descriptionBlock =>
    simp only [Mode.rules, List.forall_mem_cons]
    exact ⟨takesLongest_of (isGreedy_literal _), takesLongest_of isGreedy_many_char,
      List.forall_mem_nil _⟩

end BlockDiagram.Lexer
