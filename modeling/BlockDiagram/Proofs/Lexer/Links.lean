import BlockDiagram.Link
import BlockDiagram.Proofs.Lexer.Forms
import BlockDiagram.Proofs.Text.Cutting

/-!
# The text of links

A rule for links reads a line with blanks and perhaps markers around it (`matches_pattern_iff`). Of
its text, the characters tell the line and the ends tell the markers, and both come out as the rule
has read them (`State.link_of_next`).
-/

namespace BlockDiagram

open Regex Text Lexer.Pattern
open Token (Kind)

namespace Marker

/-- The character in front of a line that asks for the marker. -/
def tail? : Marker → Option Char
  | point => some '<'
  | cross => some 'x'
  | circle => some 'o'
  | none => .none

/-- The character behind a line that asks for the marker. -/
def head? : Marker → Option Char
  | point => some '>'
  | cross => some 'x'
  | circle => some 'o'
  | none => .none

end Marker

namespace Stroke

/-- The character that the line is a run of, if it is one. -/
def run? : Stroke → Option Char
  | normal => some '-'
  | thick => some '='
  | dotted | invisible => none

/-- The start of the line in front of a label. -/
def opening? : Stroke → Option String
  | normal => some "--"
  | thick => some "=="
  | dotted => some "-."
  | invisible => none

/-- The pattern of the rule for links with the line. -/
def pattern? (stroke : Stroke) : Kind → Option Regex
  | .link =>
    match stroke with
    | dotted => some dottedLink
    | invisible => some invisibleLink
    | normal | thick => stroke.run?.map lineLink
  | .labelledLink => stroke.opening?.map labelledLink
  | _ => none

/-- The characters that the line is drawn with. -/
def chars : Stroke → List Char
  | normal => ['-']
  | thick => ['=']
  | dotted => ['-', '.']
  | invisible => ['~']

/-- What the line is told by. -/
def sign : Stroke → List Char
  | normal => []
  | thick => "==".toList
  | dotted => ['.']
  | invisible => "~~~".toList

end Stroke

namespace Lexer

/-- The characters in front of a line that ask for a marker. -/
def linkTails : List Char := ['x', 'o', '<']

/-- Holds for the lines of links, with the marker that closes them. In front of a label there is no
more than the start of a line. -/
inductive IsLine : Kind → Stroke → List Char → Option Char → Prop where
  | run {stroke : Stroke} {c : Char} {n : Nat} {head : Option Char} (hrun : stroke.run? = some c)
      (hlong : 3 ≤ n ∨ 2 ≤ n ∧ head ≠ none) : IsLine .link stroke (List.replicate n c) head
  | dotted {dash : List Char} {n : Nat} {head : Option Char} (hdash : dash = ['-'] ∨ dash = [])
      (hlong : 1 ≤ n) : IsLine .link .dotted (dash ++ List.replicate n '.' ++ ['-']) head
  | invisible {n : Nat} (hlong : 3 ≤ n) : IsLine .link .invisible (List.replicate n '~') none
  | opening {stroke : Stroke} {start : String} (hopening : stroke.opening? = some start) :
      IsLine .labelledLink stroke start.toList none

variable {kind : Kind} {stroke : Stroke} {line text after : List Char} {head : Option Char}

namespace IsLine

private theorem mem_chars (h : IsLine kind stroke line head) : ∀ c ∈ line, c ∈ stroke.chars := by
  cases h with
  | run hrun =>
    intro c hc
    rw [List.eq_of_mem_replicate hc]
    cases stroke <;> cases hrun <;> decide
  | dotted hdash =>
    simp only [List.forall_mem_append, List.forall_mem_singleton]
    refine ⟨⟨?_, fun c hc ↦ ?_⟩, by decide⟩
    · rcases hdash with rfl | rfl <;> simp [Stroke.chars]
    · rw [List.eq_of_mem_replicate hc]
      decide
  | invisible =>
    intro c hc
    rw [List.eq_of_mem_replicate hc]
    decide
  | opening hopening => cases stroke <;> cases hopening <;> simp [Stroke.chars]

private theorem sign_infix (h : IsLine kind stroke line head) : stroke.sign <:+: line := by
  cases h with
  | @run _ c n head hrun hlong =>
    obtain ⟨m, rfl⟩ := Nat.exists_eq_add_of_le' (show 2 ≤ n by omega)
    cases stroke <;> cases hrun
    · exact List.nil_infix
    · exact ⟨[], List.replicate m '=', by simp [Stroke.sign, List.replicate_succ]⟩
  | @dotted dash n head hdash hlong =>
    obtain ⟨m, rfl⟩ := Nat.exists_eq_add_of_le' hlong
    exact ⟨dash, List.replicate m '.' ++ ['-'], by simp [Stroke.sign, List.replicate_succ]⟩
  | @invisible n hlong =>
    obtain ⟨m, rfl⟩ := Nat.exists_eq_add_of_le' hlong
    exact ⟨[], List.replicate m '~', by simp [Stroke.sign, List.replicate_succ]⟩
  | opening hopening => cases stroke <;> cases hopening <;> decide

private theorem ne_nil (h : IsLine kind stroke line head) : line ≠ [] := by
  cases h with
  | run | invisible =>
    apply List.ne_nil_of_length_pos
    rw [List.length_replicate]
    omega
  | dotted => simp
  | opening hopening => cases stroke <;> cases hopening <;> decide

end IsLine

/-- The parts that the text of a link is made up of. -/
structure LinkParts where
  before : List Char
  tail : Option Char
  line : List Char
  head : Option Char
  after : List Char

namespace LinkParts

variable {parts : LinkParts} {link : String}

/-- What is left without blanks. -/
def visible (parts : LinkParts) : List Char :=
  parts.tail.toList ++ parts.line ++ parts.head.toList

/-- The whole text. -/
def toList (parts : LinkParts) : List Char :=
  parts.before ++ parts.visible ++ parts.after

/-- Holds for the parts that the rule for a line reads. -/
structure Fits (parts : LinkParts) (kind : Kind) (stroke : Stroke) : Prop where
  before_blank : ∀ c ∈ parts.before, isBlank c = true
  tail_mem : ∀ c ∈ parts.tail, stroke ≠ .invisible ∧ c ∈ linkTails
  isLine : IsLine kind stroke parts.line parts.head
  head_mem : ∀ c ∈ parts.head, c ∈ linkHeads
  after_blank : ∀ c ∈ parts.after, isBlank c = true

/-! ### What the text says -/

private theorem Fits.mem_visible (h : parts.Fits kind stroke) :
    ∀ c ∈ parts.visible, c ∈ stroke.chars ∨ c ∈ linkTails ∨ c ∈ linkHeads := by
  simp only [visible, List.forall_mem_append, Option.mem_toList]
  exact ⟨⟨fun c hc ↦ .inr (.inl (h.tail_mem c hc).2), fun c hc ↦ .inl (h.isLine.mem_chars c hc)⟩,
    fun c hc ↦ .inr (.inr (h.head_mem c hc))⟩

private theorem isBlank_of_mem {c : Char}
    (h : c ∈ stroke.chars ∨ c ∈ linkTails ∨ c ∈ linkHeads) : isBlank c = false := by
  have hchars : ∀ c ∈ stroke.chars, isBlank c = false := by
    cases stroke <;> simp [Stroke.chars, isBlank]
  have hmarks : ∀ c ∈ linkTails ++ linkHeads, isBlank c = false := by
    simp [linkTails, linkHeads, isBlank]
  rcases h with h | h
  · exact hchars c h
  · exact hmarks c (List.mem_append.2 h)

/-- Trimming leaves the line and its markers. -/
theorem Fits.trimBlank_eq (h : parts.Fits kind stroke) : trimBlank parts.toList = parts.visible := by
  have hvisible : IsTrimmed parts.visible :=
    isTrimmed_of_forall fun c hc ↦ isBlank_of_mem (h.mem_visible c hc)
  have hne : parts.visible ≠ [] := by
    simp [visible, h.isLine.ne_nil]
  exact hvisible.trimBlank_append hne h.before_blank h.after_blank

private theorem Fits.toList_trim (h : parts.Fits kind stroke) (hlink : parts.toList = link.toList) :
    (trim link).toList = parts.visible := by
  rw [Text.toList_trim, ← hlink, h.trimBlank_eq]

/-- The characters of a link tell its line. -/
theorem Fits.ofLink_eq (h : parts.Fits kind stroke) (hlink : parts.toList = link.toList) :
    Stroke.ofLink (trim link) = stroke := by
  have htrim : trimBlank (trim link).toList = parts.visible := by
    rw [Text.toList_trim, (isTrimmed_trimBlank _).trimBlank_eq, ← hlink, h.trimBlank_eq]
  have hsign : stroke.sign <:+: parts.visible :=
    h.isLine.sign_infix.trans ⟨parts.tail.toList, parts.head.toList, rfl⟩
  -- What has a character that no link with this line has does not occur in the link.
  have hnot {word : List Char} {c : Char} (hc : c ∈ word)
      (hmem : ¬ (c ∈ stroke.chars ∨ c ∈ linkTails ∨ c ∈ linkHeads)) :
      occurs word parts.visible ≠ true := by
    intro hword
    exact hmem (h.mem_visible c ((occurs_iff.1 hword).subset hc))
  rw [Stroke.ofLink, htrim]
  cases stroke with
  | invisible => exact if_pos (occurs_iff.2 hsign)
  | thick =>
    rw [if_neg (hnot (c := '~') (by decide) (by decide))]
    exact if_pos (occurs_iff.2 hsign)
  | dotted =>
    rw [if_neg (hnot (c := '~') (by decide) (by decide)),
      if_neg (hnot (c := '=') (by decide) (by decide))]
    exact if_pos (List.contains_iff_mem.2 (hsign.subset List.mem_cons_self))
  | normal =>
    have hdot : '.' ∉ parts.visible := fun hmem ↦ absurd (h.mem_visible '.' hmem) (by decide)
    rw [if_neg (hnot (c := '~') (by decide) (by decide)),
      if_neg (hnot (c := '=') (by decide) (by decide))]
    exact if_neg (by simpa using hdot)

/-- The first character of a link tells the marker in front of its line. -/
theorem Fits.atStart_eq (h : parts.Fits kind stroke) (hlink : parts.toList = link.toList) :
    (Marker.atStart (trim link)).tail? = parts.tail := by
  have hline : ∀ c ∈ stroke.chars, (Marker.ofStart c).tail? = none := by
    cases stroke <;> simp [Stroke.chars, Marker.ofStart, Marker.tail?]
  have htail : ∀ c ∈ linkTails, (Marker.ofStart c).tail? = some c := by
    simp [linkTails, Marker.ofStart, Marker.tail?]
  rw [Marker.atStart, h.toList_trim hlink, visible, List.append_assoc]
  cases htail? : parts.tail with
  | some c => exact htail c (h.tail_mem c htail?).2
  | none =>
    obtain ⟨c, cs, hcs⟩ := List.exists_cons_of_ne_nil h.isLine.ne_nil
    have hc : c ∈ parts.line := hcs ▸ List.mem_cons_self
    rw [hcs]
    exact hline c (h.isLine.mem_chars c hc)

/-- The last character of a link tells the marker behind its line. -/
theorem Fits.atEnd_eq (h : parts.Fits kind stroke) (hlink : parts.toList = link.toList) :
    (Marker.atEnd (trim link)).head? = parts.head := by
  have hline : ∀ c ∈ stroke.chars, (Marker.ofEnd c).head? = none := by
    cases stroke <;> simp [Stroke.chars, Marker.ofEnd, Marker.head?]
  have hhead : ∀ c ∈ linkHeads, (Marker.ofEnd c).head? = some c := by
    simp [linkHeads, Marker.ofEnd, Marker.head?]
  rw [Marker.atEnd, h.toList_trim hlink, visible, List.getLast?_append]
  cases hhead? : parts.head with
  | some c => exact hhead c (h.head_mem c hhead?)
  | none =>
    obtain ⟨c, hc⟩ := Option.ne_none_iff_exists'.1 (mt List.getLast?_eq_none_iff.1 h.isLine.ne_nil)
    rw [Option.toList_none, List.getLast?_nil, Option.none_or, List.getLast?_append, hc]
    exact hline c (h.isLine.mem_chars c (List.mem_of_getLast? hc))

end LinkParts

/-! ### What the rules read -/

private theorem matches_marker_iff {cs : List Char} :
    (Regex.optional (oneOf cs)).Matches text after ↔
      ∃ marker : Option Char, (∀ c ∈ marker, c ∈ cs) ∧ text = marker.toList := by
  rw [matches_optional_iff, oneOf, matches_char_iff]
  constructor
  · rintro (⟨c, hc, rfl⟩ | rfl)
    · exact ⟨some c, fun d hd ↦ Option.mem_some.1 hd ▸ List.contains_iff_mem.1 hc, rfl⟩
    · exact ⟨none, fun d hd ↦ absurd hd (Option.not_mem_none d), rfl⟩
  · rintro ⟨_ | c, hmarker, rfl⟩
    · exact .inr rfl
    · exact .inl ⟨c, List.contains_iff_mem.2 (hmarker c rfl), rfl⟩

private theorem matches_blanks_iff :
    blanks.Matches text after ↔ ∀ c ∈ text, isBlank c = true := by
  rw [blanks, blank, matches_many_char_iff]

private theorem matches_run_iff {c : Char} :
    (atLeastOnce (just c)).Matches text after ↔ ∃ n, text = List.replicate (n + 1) c := by
  simp only [just, matches_atLeastOnce_char_iff, beq_iff_eq]
  constructor
  · rintro ⟨hne, hrun⟩
    obtain ⟨n, hn⟩ := Nat.exists_eq_add_one_of_ne_zero (mt List.length_eq_zero_iff.1 hne)
    exact ⟨n, List.eq_replicate_iff.2 ⟨hn, hrun⟩⟩
  · rintro ⟨n, rfl⟩
    exact ⟨by simp, fun d hd ↦ List.eq_of_mem_replicate hd⟩

/-- Holds for patterns that read the line for a stroke, the marker behind it and blanks. -/
private def ReadsLine (pattern : Regex) (kind : Kind) (stroke : Stroke) : Prop :=
  ∀ text after, pattern.Matches text after ↔ ∃ line head blanks, IsLine kind stroke line head ∧
    (∀ c ∈ head, c ∈ linkHeads) ∧ (∀ c ∈ blanks, isBlank c = true) ∧
    text = line ++ Option.toList head ++ blanks

/-- A run is longer by one if no marker closes it. -/
theorem readsLine_run {c : Char} (hrun : stroke.run? = some c) :
    ReadsLine (inOrder [just c, atLeastOnce (just c), oneOf (c :: linkHeads), blanks])
      .link stroke := by
  have hline (line : List Char) (head : Option Char) : IsLine .link stroke line head ↔
      ∃ n, (3 ≤ n ∨ 2 ≤ n ∧ head ≠ none) ∧ line = List.replicate n c := by
    constructor
    · intro h
      cases h with
      | run hrun' hlong =>
        obtain rfl := Option.some.inj (hrun'.symm.trans hrun)
        exact ⟨_, hlong, rfl⟩
      | dotted | invisible => cases hrun
    · rintro ⟨n, hlong, rfl⟩
      exact .run hrun hlong
  intro text after
  simp only [inOrder, matches_seq_iff, matches_just_iff, matches_run_iff, oneOf, matches_char_iff,
    List.contains_iff_mem, matches_blanks_iff, hline]
  constructor
  · rintro ⟨_, _, rfl, rfl, _, _, rfl, ⟨n, rfl⟩, _, back, rfl, ⟨d, hd, rfl⟩, hback⟩
    rcases List.mem_cons.1 hd with rfl | hd
    · refine ⟨_, none, back, ⟨n + 3, .inl (by omega), rfl⟩, by simp, hback, ?_⟩
      simp [List.replicate_succ (n := n + 2), List.replicate_succ' (n := n + 1)]
    · refine ⟨_, some d, back, ⟨n + 2, .inr ⟨by omega, by simp⟩, rfl⟩, by simpa using hd, hback, ?_⟩
      simp [List.replicate_succ (n := n + 1)]
  · rintro ⟨_, head, back, ⟨n, hlong, rfl⟩, hhead, hback, rfl⟩
    cases head with
    | none =>
      obtain ⟨m, rfl⟩ := Nat.exists_eq_add_of_le' (show 3 ≤ n by simpa using hlong)
      refine ⟨[c], _, ?_, rfl, _, _, rfl, ⟨m, rfl⟩, [c], back, rfl, ⟨c, List.mem_cons_self, rfl⟩,
        hback⟩
      simp [List.replicate_succ (n := m + 2), List.replicate_succ' (n := m + 1)]
    | some d =>
      obtain ⟨m, rfl⟩ := Nat.exists_eq_add_of_le' (show 2 ≤ n by omega)
      refine ⟨[c], _, ?_, rfl, _, _, rfl, ⟨m, rfl⟩, [d], back, rfl,
        ⟨d, List.mem_cons_of_mem c (hhead d rfl), rfl⟩, hback⟩
      simp [List.replicate_succ (n := m + 1)]

private theorem readsLine_dotted :
    ReadsLine (inOrder [Regex.optional (just '-'), atLeastOnce (just '.'), just '-',
      Regex.optional (oneOf linkHeads), blanks]) .link .dotted := by
  intro text after
  simp only [inOrder, matches_seq_iff, matches_just_iff, matches_run_iff, matches_marker_iff,
    matches_blanks_iff]
  simp only [matches_optional_iff, matches_just_iff]
  constructor
  · rintro ⟨dash, _, rfl, hdash, _, _, rfl, ⟨n, rfl⟩, _, _, rfl, rfl, _, back, rfl,
      ⟨head, hhead, rfl⟩, hback⟩
    exact ⟨_, head, back, .dotted hdash (Nat.le_add_left 1 n), hhead, hback, by simp⟩
  · rintro ⟨_, head, back, hline, hhead, hback, rfl⟩
    cases hline with
    | run hrun => cases hrun
    | @dotted dash n _ hdash hlong =>
      obtain ⟨m, rfl⟩ := Nat.exists_eq_add_of_le' hlong
      exact ⟨dash, _, by simp, hdash, _, _, rfl, ⟨m, rfl⟩, _, _, rfl, rfl, _, back, rfl,
        ⟨head, hhead, rfl⟩, hback⟩

private theorem readsLine_invisible :
    ReadsLine (inOrder [just '~', just '~', atLeastOnce (just '~'), blanks]) .link .invisible := by
  intro text after
  simp only [inOrder, matches_seq_iff, matches_just_iff, matches_run_iff, matches_blanks_iff]
  constructor
  · rintro ⟨_, _, rfl, rfl, _, _, rfl, rfl, _, back, rfl, ⟨n, rfl⟩, hback⟩
    refine ⟨_, none, back, .invisible (Nat.le_add_left 3 n), by simp, hback, ?_⟩
    simp [List.replicate_succ (n := n + 2), List.replicate_succ (n := n + 1)]
  · rintro ⟨_, _, back, hline, -, hback, rfl⟩
    cases hline with
    | run hrun => cases hrun
    | @invisible n hlong =>
      obtain ⟨m, rfl⟩ := Nat.exists_eq_add_of_le' hlong
      refine ⟨_, _, ?_, rfl, _, _, rfl, rfl, _, back, rfl, ⟨m, rfl⟩, hback⟩
      simp [List.replicate_succ (n := m + 2), List.replicate_succ (n := m + 1)]

private theorem readsLine_opening {start : String} (hopening : stroke.opening? = some start) :
    ReadsLine (inOrder [literal start, blanks]) .labelledLink stroke := by
  intro text after
  simp only [inOrder, matches_seq_iff, matches_literal_iff, matches_blanks_iff]
  constructor
  · rintro ⟨_, back, rfl, rfl, hback⟩
    exact ⟨_, none, back, .opening hopening, by simp, hback, by simp⟩
  · rintro ⟨_, _, back, hline, -, hback, rfl⟩
    cases hline with
    | opening hopening' =>
      obtain rfl := Option.some.inj (hopening'.symm.trans hopening)
      exact ⟨_, back, by simp, rfl, hback⟩

/-- In front of a line there are blanks and perhaps a marker. -/
theorem matches_framed_iff {pattern : Regex} (hpattern : ReadsLine pattern kind stroke)
    (hstroke : stroke ≠ .invisible) :
    (seq blanks (seq linkTail pattern)).Matches text after ↔
      ∃ parts : LinkParts, parts.Fits kind stroke ∧ parts.toList = text := by
  simp only [matches_seq_iff, matches_blanks_iff, linkTail, matches_marker_iff,
    hpattern _ _]
  constructor
  · rintro ⟨before, _, rfl, hbefore, _, _, rfl, ⟨tail, htail, rfl⟩, line, head, back, hline, hhead,
      hback, rfl⟩
    exact ⟨⟨before, tail, line, head, back⟩, ⟨hbefore, fun c hc ↦ ⟨hstroke, htail c hc⟩, hline, hhead,
      hback⟩, by simp [LinkParts.toList, LinkParts.visible]⟩
  · rintro ⟨⟨before, tail, line, head, back⟩, ⟨hbefore, htail, hline, hhead, hback⟩, rfl⟩
    refine ⟨before, _, ?_, hbefore, _, _, rfl, ⟨tail, fun c hc ↦ (htail c hc).2, rfl⟩, line, head,
      back, hline, hhead, hback, rfl⟩
    simp [LinkParts.toList, LinkParts.visible]

private theorem matches_invisible_iff :
    invisibleLink.Matches text after ↔
      ∃ parts : LinkParts, parts.Fits .link .invisible ∧ parts.toList = text := by
  change (seq blanks (inOrder _)).Matches text after ↔ _
  simp only [matches_seq_iff, matches_blanks_iff, readsLine_invisible _ _]
  constructor
  · rintro ⟨before, _, rfl, hbefore, line, head, back, hline, hhead, hback, rfl⟩
    exact ⟨⟨before, none, line, head, back⟩, ⟨hbefore, by simp, hline, hhead, hback⟩,
      by simp [LinkParts.toList, LinkParts.visible]⟩
  · rintro ⟨⟨before, tail, line, head, back⟩, ⟨hbefore, htail, hline, hhead, hback⟩, rfl⟩
    obtain rfl : tail = none := Option.eq_none_iff_forall_not_mem.2 fun c hc ↦ (htail c hc).1 rfl
    refine ⟨before, _, ?_, hbefore, line, head, back, hline, hhead, hback, rfl⟩
    simp [LinkParts.toList, LinkParts.visible]

/-- The rule for a line matches the links with that line. -/
theorem matches_pattern_iff {pattern : Regex} (h : stroke.pattern? kind = some pattern) :
    pattern.Matches text after ↔
      ∃ parts : LinkParts, parts.Fits kind stroke ∧ parts.toList = text := by
  cases kind with
  | link =>
    cases stroke with
    | normal | thick =>
      cases h
      exact matches_framed_iff (readsLine_run rfl) (by decide)
    | dotted =>
      cases h
      exact matches_framed_iff readsLine_dotted (by decide)
    | invisible =>
      cases h
      exact matches_invisible_iff
  | labelledLink =>
    obtain ⟨start, hstart, rfl⟩ := Option.map_eq_some_iff.1 h
    apply matches_framed_iff (readsLine_opening hstart)
    rintro rfl
    cases hstart
  | _ => cases h

/-! ### Tokens -/

private theorem patternsFor_subset (mode : Mode) (hlink : kind = .link ∨ kind = .labelledLink) :
    mode.patternsFor kind ⊆ Stroke.all.filterMap (·.pattern? kind) := by
  rcases hlink with rfl | rfl <;> cases mode <;> first
    | exact List.nil_subset _
    | exact List.Subset.refl _
    | exact List.subset_append_left _ [invisibleLink]

/-- Every rule for links is the one for some line. -/
theorem exists_pattern?_eq {mode : Mode} {rule : Rule} (hrule : rule ∈ mode.rules)
    (hkind : rule.kind = some kind) (hlink : kind = .link ∨ kind = .labelledLink) :
    ∃ stroke : Stroke, stroke.pattern? kind = some rule.pattern := by
  obtain ⟨stroke, -, hstroke⟩ := List.mem_filterMap.1
    (patternsFor_subset mode hlink (mode.pattern_mem_patternsFor hrule hkind))
  exact ⟨stroke, hstroke⟩

/-- The text of a link says what its rule has read. Its line is the one that the rule is for, and
however the text divides into parts of a link, the markers at its ends are those of the parts. -/
theorem State.link_of_next {s s' : State} {t : Token} (h : s.next = .ok (t, s'))
    (hlink : t.kind = .link ∨ t.kind = .labelledLink) :
    (∃ here piece, s.Reads [] here ∧ here.Cuts piece ∧ piece.rule.kind = some t.kind ∧
      t = here.tokenFor piece t.kind ∧ ∀ stroke : Stroke,
        stroke.pattern? t.kind = some piece.rule.pattern ↔ Stroke.ofLink (trim t.text) = stroke) ∧
    (∃ parts : LinkParts, parts.Fits t.kind (Stroke.ofLink (trim t.text)) ∧
      parts.toList = t.text.toList) ∧
    ∀ (parts : LinkParts) (stroke : Stroke), parts.Fits t.kind stroke →
      parts.toList = t.text.toList → Stroke.ofLink (trim t.text) = stroke ∧
        (Marker.atStart (trim t.text)).tail? = parts.tail ∧
        (Marker.atEnd (trim t.text)).head? = parts.head := by
  obtain ⟨here, hreads, ⟨-, rfl, -⟩ | ⟨piece, kind, hcuts, hkind, ht, -⟩⟩ := next_eq_ok_iff.1 h
  · rcases hlink with hlink | hlink <;> cases hlink
  obtain rfl : t.kind = kind := congrArg Token.kind ht
  have htext : t.text.toList = piece.text := by
    rw [ht]
    exact String.toList_ofList
  have hparts (stroke : Stroke) (hpattern : stroke.pattern? t.kind = some piece.rule.pattern) :
      ∃ parts : LinkParts, parts.Fits t.kind stroke ∧ parts.toList = t.text.toList := by
    rw [htext]
    exact (matches_pattern_iff hpattern).1 hcuts.pattern_matches
  have hline (stroke : Stroke) (hpattern : stroke.pattern? t.kind = some piece.rule.pattern) :
      Stroke.ofLink (trim t.text) = stroke := by
    obtain ⟨parts, hfits, hlist⟩ := hparts stroke hpattern
    exact hfits.ofLink_eq hlist
  obtain ⟨stroke, hstroke⟩ := exists_pattern?_eq hcuts.mem_rules hkind hlink
  obtain rfl := hline stroke hstroke
  refine ⟨⟨here, piece, hreads, hcuts, hkind, ht, fun stroke ↦ ⟨hline stroke, ?_⟩⟩,
    hparts _ hstroke, fun parts stroke hfits hlist ↦ ?_⟩
  · rintro rfl
    exact hstroke
  · exact ⟨hfits.ofLink_eq hlist, hfits.atStart_eq hlist, hfits.atEnd_eq hlist⟩

/-- A dotted link with a marker at either end and with blanks around it. -/
def dottedParts : LinkParts :=
  ⟨[' '], some '<', "-..-".toList, some 'x', [' ']⟩

/-- A dotted link has the markers that are written at both of its ends. -/
theorem State.link_of_next_dotted :
    ∃ t s', (State.start " <-..-x b").next = .ok (t, s') ∧ t.kind = .link ∧
      Stroke.ofLink (trim t.text) = .dotted ∧ (Marker.atStart (trim t.text)).tail? = some '<' ∧
        (Marker.atEnd (trim t.text)).head? = some 'x' := by
  obtain ⟨s', hnext⟩ : ∃ s', (State.start " <-..-x b").next =
      .ok (⟨.link, " <-..-x ", .between 0 8⟩, s') := by
    have hfirst : (State.start " <-..-x b").next.toOption.map Prod.fst =
        some ⟨.link, " <-..-x ", .between 0 8⟩ := by
      decide +kernel
    cases hnext : (State.start " <-..-x b").next with
    | error unmatched =>
      rw [hnext] at hfirst
      cases hfirst
    | ok result =>
      rw [hnext] at hfirst
      exact ⟨result.2, congrArg Except.ok (Prod.ext (Option.some.inj hfirst) rfl)⟩
  have hfits : dottedParts.Fits .link .dotted := {
    before_blank := List.forall_mem_singleton.2 rfl
    tail_mem := by simp [dottedParts, linkTails]
    isLine := @IsLine.dotted ['-'] 2 (some 'x') (.inl rfl) (by decide)
    head_mem := by simp [dottedParts, linkHeads]
    after_blank := List.forall_mem_singleton.2 rfl }
  exact ⟨_, s', hnext, rfl, (link_of_next hnext (.inl rfl)).2.2 dottedParts .dotted hfits rfl⟩

end Lexer

end BlockDiagram
