import BlockDiagram.Proofs.Lexer.Origin

/-!
# Pieces of a source

What the lexer cuts a source into. Every piece has some text, and one behind the other they make up
the source, or what is in front of the place where no rule matches. The tokens are the pieces of
rules with a kind, each with its own part of the source, so all that is between them is in pieces of
rules without a kind (`tokenize_pieces`).
-/

namespace BlockDiagram

open Source (Span)
open Token (Kind)

namespace Source.Span

/-- Holds for the text that a source has in a span, which begins and ends between characters. -/
structure Selects (span : Span) (source text : String) : Prop where
  bytes_eq : source.toByteArray.extract span.start span.stop = text.toByteArray
  start_isValid : String.Pos.Raw.IsValid source ⟨span.start⟩
  stop_isValid : String.Pos.Raw.IsValid source ⟨span.stop⟩

/-- Holds for the offsets of the bytes in a span. -/
def Covers (span : Span) (offset : Nat) : Prop :=
  span.start ≤ offset ∧ offset < span.stop

/-- A span selects the text that it has the size of, behind a text of the size of its start. -/
theorem selects_append {span : Span} {before text after : String}
    (hstart : span.start = before.utf8ByteSize)
    (hstop : span.stop = before.utf8ByteSize + text.utf8ByteSize) :
    span.Selects (before ++ text ++ after) text where
  bytes_eq := by
    have hsize : (before ++ text).toByteArray.size = span.stop := by
      rw [String.size_toByteArray, String.utf8ByteSize_append, hstop]
    rw [String.toByteArray_append, ← hsize, ByteArray.extract_append_size_left,
      String.toByteArray_append]
    apply ByteArray.extract_append_eq_right
    · rw [hstart, String.size_toByteArray]
    · rw [ByteArray.size_append]
  start_isValid := by
    rw [String.Pos.Raw.isValid_iff_exists_append]
    exact ⟨before, text ++ after, String.append_assoc, congrArg String.Pos.Raw.mk hstart⟩
  stop_isValid := by
    rw [String.Pos.Raw.isValid_iff_exists_append]
    refine ⟨before ++ text, after, rfl, congrArg String.Pos.Raw.mk ?_⟩
    rw [hstop, ← String.utf8ByteSize_append]

end Source.Span

namespace Lexer

/-- Characters one behind the other take up the bytes of both. -/
theorem byteLength_append (front back : List Char) :
    byteLength (front ++ back) = byteLength front + byteLength back := by
  induction front with
  | nil => exact (Nat.zero_add _).symm
  | cons c front ih =>
    change c.utf8Size + byteLength (front ++ back) = c.utf8Size + byteLength front + byteLength back
    rw [ih, Nat.add_assoc]

private theorem byteLength_pos {cs : List Char} (h : cs ≠ []) : 0 < byteLength cs := by
  cases cs with
  | nil => exact absurd rfl h
  | cons c cs => exact Nat.add_pos_left c.utf8Size_pos _

/-- A text has as many bytes as its characters. -/
theorem utf8ByteSize_ofList (cs : List Char) : (String.ofList cs).utf8ByteSize = byteLength cs := by
  induction cs with
  | nil => rfl
  | cons c cs ih =>
    have hcons : String.ofList (c :: cs) = String.singleton c ++ String.ofList cs := by
      rw [String.singleton_eq_ofList, ← String.ofList_append, List.singleton_append]
    rw [hcons, String.utf8ByteSize_append, String.utf8ByteSize_singleton, ih]
    rfl

/-- The characters of a text have as many bytes as it has. -/
theorem byteLength_toList (source : String) : byteLength source.toList = source.utf8ByteSize := by
  rw [← utf8ByteSize_ofList, String.ofList_toList]

namespace Piece

/-- The place of a piece in the source. -/
def span (piece : Piece) : Span :=
  Span.between (piece.after.offset - byteLength piece.text) piece.after.offset

/-- The token that a piece becomes, if its rule is for a kind. -/
def token? (piece : Piece) : Option Token :=
  piece.rule.kind.map fun kind ↦ ⟨kind, String.ofList piece.text, piece.span⟩

end Piece

/-- What becomes no token. -/
inductive Gap where
  | blanks
  | comment
  | quote
  /-- The start of a text in markdown. -/
  | markdownStart
  | markdownEnd
  /-- What is between the text and the directions of a block arrow. -/
  | directionsStart
  /-- The start of a description between braces. -/
  | descriptionStart
  | descriptionEnd

namespace Gap

/-- What a gap looks like. -/
def pattern : Gap → Regex
  | blanks => Pattern.someBlanks
  | comment => .inOrder [.literal "%%", Pattern.upTo '\n']
  | quote => .literal "\""
  | markdownStart => .literal "\"`"
  | markdownEnd => .literal "`\""
  | directionsStart => .inOrder [.literal "]>", Pattern.blanks, .just '(']
  | descriptionStart =>
    .inOrder [.literal "accDescr", Pattern.blanks, .just '\x7b', Pattern.blanks]
  | descriptionEnd => .literal "\x7d"

/-- The gaps that a mode has rules for, in the order of the rules, with their effects. -/
def ofMode : Mode → List (Gap × Effect)
  | .initial =>
    [(blanks, .stay), (comment, .stay), (markdownStart, .enter .markdown), (quote, .enter .string),
      (descriptionStart, .enter .descriptionBlock)]
  | .string => [(quote, .leave)]
  | .markdown => [(markdownEnd, .leave)]
  | .node => [(markdownStart, .enter .markdown), (quote, .enter .string)]
  | .blockArrow =>
    [(markdownStart, .enter .markdown), (quote, .enter .string),
      (directionsStart, .enter .arrowDirections)]
  | .descriptionBlock => [(descriptionEnd, .leave)]
  | _ => []

private theorem map_ofMode (mode : Mode) :
    (mode.rules.filter fun rule ↦ rule.kind = none).map
        (fun rule ↦ (rule.pattern, rule.effect)) =
      (ofMode mode).map fun (gap, effect) ↦ (gap.pattern, effect) := by
  cases mode <;> rfl

/-- The rules without a kind are for gaps. -/
theorem exists_of_mem_rules {mode : Mode} {rule : Rule} (h : rule ∈ mode.rules)
    (hkind : rule.kind = none) :
    ∃ gap, (gap, rule.effect) ∈ ofMode mode ∧ rule.pattern = gap.pattern := by
  have hmem : (rule.pattern, rule.effect) ∈
      (ofMode mode).map fun (gap, effect) ↦ (gap.pattern, effect) := by
    rw [← map_ofMode]
    exact List.mem_map_of_mem (List.mem_filter.2 ⟨h, decide_eq_true hkind⟩)
  obtain ⟨⟨gap, effect⟩, hgap, heq⟩ := List.mem_map.1 hmem
  obtain ⟨hpattern, rfl⟩ := Prod.mk.inj heq
  exact ⟨gap, hgap, hpattern.symm⟩

end Gap

/-- Holds for pieces that become no token. -/
structure Piece.IsGap (piece : Piece) : Prop where
  kind_eq : piece.rule.kind = none
  exists_matches : ∃ gap : Gap, gap.pattern.Matches piece.text piece.after.rest

namespace State

variable {s s' : State} {piece : Piece} {ps : List Piece}

/-- The pieces that are cut from a state on, for as long as some rule matches. -/
def pieces (s : State) : List Piece :=
  if _ : s.rest = [] then []
  else
    match _ : s.cut with
    | none => []
    | some piece => piece :: piece.after.pieces
termination_by s.rest.length
decreasing_by exact cut_length_lt ‹_› ‹_›

private theorem pieces_of_nil (h : s.rest = []) : s.pieces = [] := by
  rw [pieces, dif_pos h]

/-- Where a piece is cut there is something left of the source. -/
theorem Cuts.rest_ne_nil (h : s.Cuts piece) : s.rest ≠ [] := by
  rw [← h.text_append]
  exact List.append_ne_nil_of_left_ne_nil h.text_ne_nil _

private theorem pieces_of_cuts (h : s.Cuts piece) : s.pieces = piece :: piece.after.pieces := by
  rw [pieces, dif_neg h.rest_ne_nil]
  split
  · next hcut =>
    rw [cut_eq_some_iff.2 h] at hcut
    cases hcut
  · next piece' hcut => rw [h.unique (cut_eq_some_iff.1 hcut)]

/-- The first piece is the one that is to be cut next. -/
theorem cuts_of_pieces_eq_cons (h : s.pieces = piece :: ps) :
    s.Cuts piece ∧ piece.after.pieces = ps := by
  rw [pieces] at h
  split at h
  · cases h
  · split at h
    · cases h
    · next hcut =>
      obtain ⟨rfl, hps⟩ := List.cons.inj h
      exact ⟨cut_eq_some_iff.1 hcut, hps⟩

private theorem Cuts.span_eq (h : s.Cuts piece) :
    piece.span.start = s.offset ∧ piece.span.stop = s.offset + byteLength piece.text := by
  have hoffset := h.offset
  constructor
  · change piece.after.offset - byteLength piece.text = s.offset
    omega
  · change max piece.after.offset (piece.after.offset - byteLength piece.text) = _
    omega

private theorem Cuts.token?_eq (h : s.Cuts piece) {kind : Kind}
    (hkind : piece.rule.kind = some kind) : piece.token? = some (s.tokenFor piece kind) := by
  have hspan : piece.span = Span.between s.offset piece.after.offset := by
    rw [Piece.span, h.offset, Nat.add_sub_cancel]
  rw [Piece.token?, hkind, Option.map_some, hspan]
  rfl

/-- The pieces that have been read come first. -/
theorem Reads.pieces_eq {ts : List Token} (h : s.Reads ts s') :
    ∃ cut, s.pieces = cut ++ s'.pieces ∧ cut.filterMap Piece.token? = ts := by
  induction h with
  | done => exact ⟨[], rfl, rfl⟩
  | @skip s s' piece ts hcuts hkind hreads ih =>
    obtain ⟨cut, hcut, hts⟩ := ih
    refine ⟨piece :: cut, by rw [pieces_of_cuts hcuts, hcut, List.cons_append], ?_⟩
    rw [List.filterMap_cons, Piece.token?, hkind, Option.map_none, hts]
  | @token s s' piece kind ts hcuts hkind hreads ih =>
    obtain ⟨cut, hcut, hts⟩ := ih
    refine ⟨piece :: cut, by rw [pieces_of_cuts hcuts, hcut, List.cons_append], ?_⟩
    rw [List.filterMap_cons, hcuts.token?_eq hkind, hts]

/-- The last piece is read behind all others. -/
theorem reads_of_getLast? (h : s.pieces.getLast? = some piece) : ∃ ts, s.Reads ts piece.after := by
  induction hps : s.pieces generalizing s with
  | nil =>
    rw [hps] at h
    cases h
  | cons first ps ih =>
    obtain ⟨hcuts, hrest⟩ := cuts_of_pieces_eq_cons hps
    have hfirst : ∃ ts, first.after.Reads ts piece.after := by
      cases hafter : first.after.pieces.getLast? with
      | none =>
        rw [hps, ← hrest, List.getLast?_cons, hafter] at h
        obtain rfl := Option.some.inj h
        exact ⟨[], .done⟩
      | some last =>
        rw [hps, ← hrest, List.getLast?_cons, hafter] at h
        obtain rfl := Option.some.inj h
        exact ih hafter hrest
    obtain ⟨ts, hreads⟩ := hfirst
    cases hkind : first.rule.kind with
    | none => exact ⟨ts, .skip hcuts hkind hreads⟩
    | some kind => exact ⟨_, .token hcuts hkind hreads⟩

/-- There are no pieces at the end of a source and where no rule matches. -/
theorem pieces_eq_nil (h : s.pieces = []) : s.rest = [] ∨ s.rest ≠ [] ∧ s.NothingMatches := by
  by_cases hrest : s.rest = []
  · exact .inl hrest
  · cases hcut : s.cut with
    | none => exact .inr ⟨hrest, cut_eq_none_iff.1 hcut⟩
    | some piece =>
      rw [pieces_of_cuts (cut_eq_some_iff.1 hcut)] at h
      cases h

/-- The pieces lead to the end of the source or to a place where no rule matches. Their texts are
what is in front of it, and their tokens those that are read on the way. -/
theorem exists_end (s : State) : ∃ s', s.Reads (s.pieces.filterMap Piece.token?) s' ∧
    (s'.rest = [] ∨ s'.rest ≠ [] ∧ s'.NothingMatches) ∧
    s.pieces.flatMap Piece.text ++ s'.rest = s.rest ∧
    s'.offset = s.offset + byteLength (s.pieces.flatMap Piece.text) := by
  induction hps : s.pieces generalizing s with
  | nil => exact ⟨s, .done, pieces_eq_nil hps, rfl, rfl⟩
  | cons piece ps ih =>
    obtain ⟨hcuts, hrest⟩ := cuts_of_pieces_eq_cons hps
    obtain ⟨s', hreads, hend, htext, hoffset⟩ := ih piece.after hrest
    refine ⟨s', ?_, hend, ?_, ?_⟩
    · cases hkind : piece.rule.kind with
      | none =>
        rw [List.filterMap_cons, Piece.token?, hkind, Option.map_none]
        exact .skip hcuts hkind hreads
      | some kind =>
        rw [List.filterMap_cons, hcuts.token?_eq hkind]
        exact .token hcuts hkind hreads
    · rw [List.flatMap_cons, List.append_assoc, htext, hcuts.text_append]
    · rw [List.flatMap_cons, byteLength_append, hoffset, hcuts.offset, Nat.add_assoc]

/-- Every piece is cut behind what is read in front of it. -/
theorem exists_cuts_of_mem_pieces (h : piece ∈ s.pieces) :
    ∃ (s' : State) (before : List Char), s'.Cuts piece ∧ s.rest = before ++ s'.rest ∧
      s'.offset = s.offset + byteLength before ∧ ∃ ts, s.Reads ts s' := by
  induction hps : s.pieces generalizing s with
  | nil =>
    rw [hps] at h
    cases h
  | cons first ps ih =>
    obtain ⟨hcuts, hrest⟩ := cuts_of_pieces_eq_cons hps
    rw [hps] at h
    rcases List.mem_cons.1 h with rfl | hmem
    · exact ⟨s, [], hcuts, rfl, rfl, [], .done⟩
    · obtain ⟨s', before, hcuts', htext, hoffset, ts, hreads⟩ := ih (hrest ▸ hmem) hrest
      refine ⟨s', first.text ++ before, hcuts', ?_, ?_, ?_⟩
      · rw [← hcuts.text_append, htext, List.append_assoc]
      · rw [hoffset, hcuts.offset, byteLength_append, Nat.add_assoc]
      · cases hkind : first.rule.kind with
        | none => exact ⟨ts, .skip hcuts hkind hreads⟩
        | some kind => exact ⟨_, .token hcuts hkind hreads⟩

private theorem text_ne_nil_of_mem_pieces (h : piece ∈ s.pieces) : piece.text ≠ [] := by
  obtain ⟨s', before, hcuts, -⟩ := exists_cuts_of_mem_pieces h
  exact hcuts.text_ne_nil

/-- The pieces of rules without a kind are gaps. -/
theorem isGap_of_mem_pieces (h : piece ∈ s.pieces) (hkind : piece.rule.kind = none) :
    piece.IsGap := by
  obtain ⟨s', before, hcuts, -⟩ := exists_cuts_of_mem_pieces h
  obtain ⟨gap, -, hpattern⟩ := Gap.exists_of_mem_rules hcuts.mem_rules hkind
  exact ⟨hkind, gap, hpattern ▸ hcuts.pattern_matches⟩

/-- The pieces lie one behind the other. -/
theorem pairwise_pieces (s : State) :
    s.pieces.Pairwise fun piece piece' ↦ piece.span.stop ≤ piece'.span.start := by
  induction hps : s.pieces generalizing s with
  | nil => exact .nil
  | cons first ps ih =>
    obtain ⟨hcuts, hrest⟩ := cuts_of_pieces_eq_cons hps
    refine .cons (fun piece hpiece ↦ ?_) (ih _ hrest)
    obtain ⟨s', before, hcuts', -, hoffset', -⟩ := exists_cuts_of_mem_pieces (hrest ▸ hpiece)
    have hstop := hcuts.span_eq.2
    have hstart := hcuts'.span_eq.1
    have hoffset := hcuts.offset
    omega

/-- No byte is left out between the pieces. -/
theorem exists_covers_of_lt (s : State) {offset : Nat} (hle : s.offset ≤ offset)
    (hlt : offset < s.offset + byteLength (s.pieces.flatMap Piece.text)) :
    ∃ piece ∈ s.pieces, piece.span.Covers offset := by
  induction hps : s.pieces generalizing s with
  | nil =>
    rw [hps] at hlt
    exact absurd hlt (Nat.not_lt.2 hle)
  | cons first ps ih =>
    obtain ⟨hcuts, hrest⟩ := cuts_of_pieces_eq_cons hps
    obtain ⟨hstart, hstop⟩ := hcuts.span_eq
    have hoffset := hcuts.offset
    rw [hps, List.flatMap_cons, byteLength_append] at hlt
    by_cases hfirst : offset < s.offset + byteLength first.text
    · refine ⟨first, List.mem_cons_self, ?_, ?_⟩
      · omega
      · omega
    · obtain ⟨piece, hpiece, hcovers⟩ := ih first.after (by omega) (by rw [hrest]; omega) hrest
      exact ⟨piece, List.mem_cons_of_mem _ hpiece, hcovers⟩

/-- There are no more pieces than characters. -/
theorem length_pieces_le (s : State) : s.pieces.length ≤ s.rest.length := by
  induction hps : s.pieces generalizing s with
  | nil => exact Nat.zero_le _
  | cons first ps ih =>
    obtain ⟨hcuts, hrest⟩ := cuts_of_pieces_eq_cons hps
    have hle := ih first.after hrest
    have hpos := List.length_pos_iff.2 hcuts.text_ne_nil
    rw [← hcuts.text_append, List.length_append, List.length_cons]
    omega

/-- The next token is the first piece with a kind; the pieces in front of it are skipped. -/
theorem pieces_of_next {t : Token} (h : s.next = .ok (t, s')) : ∃ skipped,
    (∀ piece ∈ skipped, piece.rule.kind = none) ∧
      ((s.pieces = skipped ∧ s'.rest = [] ∧ t = s'.endToken) ∨
        ∃ piece, s.pieces = skipped ++ piece :: s'.pieces ∧ piece.token? = some t) := by
  obtain ⟨s₁, hreads, hnext⟩ := next_eq_ok_iff.1 h
  obtain ⟨skipped, hskipped, hnone⟩ := hreads.pieces_eq
  refine ⟨skipped, fun piece hpiece ↦ ?_, ?_⟩
  · have htoken := List.filterMap_eq_nil_iff.1 hnone piece hpiece
    exact Option.map_eq_none_iff.1 htoken
  · rcases hnext with ⟨hrest, rfl, rfl⟩ | ⟨piece, kind, hcuts, hkind, rfl, rfl⟩
    · left
      rw [pieces_of_nil hrest, List.append_nil] at hskipped
      exact ⟨hskipped, hrest, rfl⟩
    · right
      rw [pieces_of_cuts hcuts] at hskipped
      exact ⟨piece, hskipped, hcuts.token?_eq hkind⟩

end State

/-- The pieces of a source. -/
def piecesOf (source : String) : List Piece :=
  (State.start source).pieces

variable {source : String} {piece : Piece} {t : Token}

/-- Every piece is the part of the source that its span says. -/
theorem selects_of_mem_piecesOf (h : piece ∈ piecesOf source) :
    piece.span.Selects source (String.ofList piece.text) := by
  obtain ⟨s, before, hcuts, hrest, hoffset, -⟩ := State.exists_cuts_of_mem_pieces h
  obtain ⟨hstart, hstop⟩ := hcuts.span_eq
  have hbefore : s.offset = byteLength before := hoffset.trans (Nat.zero_add _)
  have hsource : source =
      String.ofList before ++ String.ofList piece.text ++ String.ofList piece.after.rest := by
    rw [← String.ofList_append, ← String.ofList_append, List.append_assoc, hcuts.text_append,
      ← hrest]
    exact String.ofList_toList.symm
  rw [hsource]
  apply Span.selects_append
  · rw [hstart, hbefore, utf8ByteSize_ofList]
  · rw [hstop, hbefore, utf8ByteSize_ofList, utf8ByteSize_ofList]

/-- The end of a source is an empty part of it. -/
theorem selects_emptyAt (source : String) :
    (Span.emptyAt source.utf8ByteSize).Selects source "" := by
  have hselects : (Span.emptyAt source.utf8ByteSize).Selects (source ++ "" ++ "") "" :=
    Span.selects_append rfl rfl
  rwa [String.append_empty, String.append_empty] at hselects

/-- Every token in front of the end of the input is a piece in the same place. -/
theorem exists_piece_of_mem (h : t ∈ (piecesOf source).filterMap Piece.token?) :
    ∃ piece ∈ piecesOf source, piece.rule.kind = some t.kind ∧
      t.text = String.ofList piece.text ∧ t.span = piece.span := by
  obtain ⟨piece, hpiece, htoken⟩ := List.mem_filterMap.1 h
  obtain ⟨kind, hkind, rfl⟩ := Option.map_eq_some_iff.1 htoken
  exact ⟨piece, hpiece, hkind, rfl, rfl⟩

private theorem isSolid_of_mem (h : t ∈ (piecesOf source).filterMap Piece.token?) :
    t.kind ≠ .endOfInput ∧ t.span.start < t.span.stop := by
  obtain ⟨piece, hpiece, hkind, -, hspan⟩ := exists_piece_of_mem h
  obtain ⟨s, before, hcuts, -⟩ := State.exists_cuts_of_mem_pieces hpiece
  obtain ⟨hstart, hstop⟩ := hcuts.span_eq
  have hpos := byteLength_pos hcuts.text_ne_nil
  refine ⟨hcuts.kind_ne_endOfInput hkind, ?_⟩
  rw [hspan]
  omega

/-- The tokens lie one behind the other, and in front of the end of the source. -/
theorem pairwise_tokens (source : String) :
    ((piecesOf source).filterMap Piece.token? ++
      [(⟨.endOfInput, "", .emptyAt source.utf8ByteSize⟩ : Token)]).Pairwise
        fun t t' : Token ↦ t.span.stop ≤ t'.span.start := by
  rw [List.pairwise_append]
  refine ⟨?_, List.pairwise_singleton _ _, fun t ht eof heof ↦ ?_⟩
  · have hpieces := State.pairwise_pieces (.start source)
    rw [List.pairwise_filterMap]
    refine hpieces.imp fun hle t ht t' ht' ↦ ?_
    obtain ⟨kind, -, rfl⟩ := Option.map_eq_some_iff.1 ht
    obtain ⟨kind', -, rfl⟩ := Option.map_eq_some_iff.1 ht'
    exact hle
  · obtain ⟨piece, hpiece, -, -, hspan⟩ := exists_piece_of_mem ht
    obtain rfl := List.mem_singleton.1 heof
    rw [hspan]
    exact (selects_of_mem_piecesOf hpiece).stop_isValid.le_rawEndPos

/-- The pieces of a source make up all of it, and then its tokens are those of the pieces, or they
end at a character that no rule matches. -/
theorem tokenize_cases (source : String) :
    ((piecesOf source).flatMap Piece.text = source.toList ∧
      tokenize source = .ok ((piecesOf source).filterMap Piece.token? ++
        [⟨.endOfInput, "", .emptyAt source.utf8ByteSize⟩])) ∨
    ∃ u rest, (piecesOf source).flatMap Piece.text ++ u.char :: rest = source.toList ∧
      u.offset = byteLength ((piecesOf source).flatMap Piece.text) ∧
      tokenize source = .error u := by
  obtain ⟨s', hreads, hend, htext, hoffset⟩ := State.exists_end (.start source)
  have hstop : s'.offset = byteLength ((piecesOf source).flatMap Piece.text) :=
    hoffset.trans (Nat.zero_add _)
  rcases hend with hrest | ⟨hrest, hnothing⟩
  · rw [hrest, List.append_nil] at htext
    have htokens := State.tokens_eq_ok_iff.2 ⟨_, s', hreads, hrest, rfl⟩
    rw [State.endToken, hstop, piecesOf, htext] at htokens
    exact .inl ⟨htext, byteLength_toList source ▸ htokens⟩
  · obtain ⟨c, cs, hrest⟩ := List.exists_cons_of_ne_nil hrest
    have herror : tokenize source = .error ⟨c, s'.offset⟩ :=
      State.tokens_eq_error_iff.2 ⟨_, s', cs, hreads, hnothing, hrest, rfl⟩
    exact .inr ⟨⟨c, s'.offset⟩, cs, hrest ▸ htext, hstop, herror⟩

/-- Cutting a source loses nothing and always moves on. The lexer takes piece by piece, and none of
them is empty; together they are the source, or what is in front of the character that no rule
matches. The tokens are pieces of the source, one behind the other, and what is between them is in
pieces that become no token. -/
theorem tokenize_pieces (source : String) :
    (∀ (s s' : State) (t : Token), s.next = .ok (t, s') → ∃ skipped,
      (∀ piece ∈ skipped, piece.rule.kind = none) ∧
      ((s.pieces = skipped ∧ s'.rest = [] ∧ t = s'.endToken) ∨
        ∃ piece, s.pieces = skipped ++ piece :: s'.pieces ∧ piece.token? = some t)) ∧
    (∀ piece ∈ piecesOf source, piece.text ≠ [] ∧
      piece.span.Selects source (String.ofList piece.text)) ∧
    (piecesOf source).length ≤ source.length ∧
    (∀ u, tokenize source = .error u → ∃ rest,
      (piecesOf source).flatMap Piece.text ++ u.char :: rest = source.toList ∧
      u.offset = byteLength ((piecesOf source).flatMap Piece.text)) ∧
    ∀ ts, tokenize source = .ok ts →
      (piecesOf source).flatMap Piece.text = source.toList ∧
      ∃ body, body = (piecesOf source).filterMap Piece.token? ∧
        ts = body ++ [⟨.endOfInput, "", .emptyAt source.utf8ByteSize⟩] ∧
        (∀ t ∈ body, t.kind ≠ .endOfInput ∧ t.span.start < t.span.stop) ∧
        (∀ t ∈ ts, t.span.Selects source t.text) ∧
        (ts.Pairwise fun t t' ↦ t.span.stop ≤ t'.span.start) ∧
        ∀ offset < source.utf8ByteSize, (∃ t ∈ body, t.span.Covers offset) ∨
          ∃ piece ∈ piecesOf source, piece.IsGap ∧ piece.span.Covers offset := by
  refine ⟨fun s s' t h ↦ State.pieces_of_next h, ?_, ?_, fun u hu ↦ ?_, fun ts hts ↦ ?_⟩
  · exact fun piece hpiece ↦
      ⟨State.text_ne_nil_of_mem_pieces hpiece, selects_of_mem_piecesOf hpiece⟩
  · have hlength := State.length_pieces_le (.start source)
    rwa [State.start, String.length_toList] at hlength
  · rcases tokenize_cases source with ⟨-, htokens⟩ | ⟨u', rest, htext, hoffset, herror⟩
    · rw [hu] at htokens
      cases htokens
    · obtain rfl := Except.error.inj (hu.symm.trans herror)
      exact ⟨rest, htext, hoffset⟩
  · rcases tokenize_cases source with ⟨htext, htokens⟩ | ⟨u', rest, htext, hoffset, herror⟩
    · obtain rfl := Except.ok.inj (hts.symm.trans htokens)
      refine ⟨htext, _, rfl, rfl, ?_, ?_, ?_, ?_⟩
      · exact fun t ht ↦ isSolid_of_mem ht
      · intro t ht
        rcases List.mem_append.1 ht with ht | ht
        · obtain ⟨piece, hpiece, -, htoken, hspan⟩ := exists_piece_of_mem ht
          rw [htoken, hspan]
          exact selects_of_mem_piecesOf hpiece
        · obtain rfl := List.mem_singleton.1 ht
          exact selects_emptyAt source
      · exact pairwise_tokens source
      · intro offset hoffset
        have hlt : offset < byteLength ((piecesOf source).flatMap Piece.text) := by
          rwa [htext, byteLength_toList]
        obtain ⟨piece, hpiece, hcovers⟩ := State.exists_covers_of_lt (.start source)
          (Nat.zero_le offset) (Nat.lt_of_lt_of_eq hlt (Nat.zero_add _).symm)
        cases hkind : piece.rule.kind with
        | none => exact .inr ⟨piece, hpiece, State.isGap_of_mem_pieces hpiece hkind, hcovers⟩
        | some kind =>
          have htoken : piece.token? = some ⟨kind, String.ofList piece.text, piece.span⟩ := by
            rw [Piece.token?, hkind, Option.map_some]
          exact .inl ⟨_, List.mem_filterMap.2 ⟨piece, hpiece, htoken⟩, hcovers⟩
    · rw [hts] at herror
      cases herror

end Lexer

end BlockDiagram
