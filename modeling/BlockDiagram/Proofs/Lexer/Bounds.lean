import BlockDiagram.Proofs.Lexer.Pieces

/-!
# Places in a source

The lexer stands between two characters of its source (`State.IsIn`), so the places that it finds
begin and end there: those of tokens (`State.IsIn.next`) and that of the character where no rule
matches (`State.IsIn.unmatched`). A place that covers such places is one too.
-/

namespace BlockDiagram

open Source (Span)

namespace Source.Span

/-- Holds for spans that begin and end between characters of a source. -/
structure LiesIn (span : Span) (source : String) : Prop where
  start_isValid : String.Pos.Raw.IsValid source ⟨span.start⟩
  stop_isValid : String.Pos.Raw.IsValid source ⟨span.stop⟩

variable {span other : Span} {source : String}

private theorem Selects.liesIn {text : String} (h : span.Selects source text) :
    span.LiesIn source :=
  ⟨h.start_isValid, h.stop_isValid⟩

namespace LiesIn

/-- What lies in a source ends with it at the latest. -/
theorem stop_le (h : span.LiesIn source) : span.stop ≤ source.utf8ByteSize :=
  h.stop_isValid.le_rawEndPos

/-- The span from one place in a source to another one lies in it. -/
theorem union (h : span.LiesIn source) (h' : other.LiesIn source) :
    (span.union other).LiesIn source where
  start_isValid := by
    rw [start_union]
    rcases Nat.le_total span.start other.start with hle | hle
    · rw [Nat.min_eq_left hle]
      exact h.start_isValid
    · rw [Nat.min_eq_right hle]
      exact h'.start_isValid
  stop_isValid := by
    rw [stop_union]
    rcases Nat.le_total span.stop other.stop with hle | hle
    · rw [Nat.max_eq_right hle]
      exact h'.stop_isValid
    · rw [Nat.max_eq_left hle]
      exact h.stop_isValid

/-- The place in front of another one. -/
theorem emptyAt (h : span.LiesIn source) : (Span.emptyAt span.start).LiesIn source :=
  ⟨h.start_isValid, h.start_isValid⟩

end LiesIn

end Source.Span

namespace Lexer

variable {s s' : State} {source : String}

/-- Holds when a state is behind some front of a source. -/
def State.IsIn (s : State) (source : String) : Prop :=
  ∃ front : String, source = front ++ String.ofList s.rest ∧ s.offset = front.utf8ByteSize

namespace State.IsIn

/-- The lexer starts in its source. -/
theorem start (source : String) : (State.start source).IsIn source :=
  ⟨"", by rw [State.start, String.ofList_toList, String.empty_append], rfl⟩

/-- A text in front of what is left lies in the source. -/
theorem liesIn (h : s.IsIn source) {text rest : List Char} (htext : text ++ rest = s.rest)
    {stop : Nat} (hstop : stop = s.offset + byteLength text) :
    (Span.between s.offset stop).LiesIn source := by
  obtain ⟨front, hsource, hoffset⟩ := h
  rw [hsource, ← htext, String.ofList_append, ← String.append_assoc]
  have hend : (Span.between s.offset stop).stop =
      front.utf8ByteSize + (String.ofList text).utf8ByteSize := by
    rw [utf8ByteSize_ofList, ← hoffset, hstop]
    exact Nat.max_eq_left (Nat.le_add_right _ _)
  exact (Span.selects_append hoffset hend).liesIn

private theorem cut (h : s.IsIn source) {piece : Piece} (hcut : s.cut = some piece) :
    piece.after.IsIn source ∧ (Span.between s.offset piece.after.offset).LiesIn source := by
  have htext := State.cut_append hcut
  have hstop : piece.after.offset = s.offset + byteLength piece.text := by
    obtain ⟨⟨rule, length⟩, -, rfl⟩ := Option.map_eq_some_iff.1 hcut
    rfl
  refine ⟨?_, h.liesIn htext hstop⟩
  obtain ⟨front, hsource, hoffset⟩ := h
  refine ⟨front ++ String.ofList piece.text, ?_, ?_⟩
  · rw [String.append_assoc, ← String.ofList_append, htext]
    exact hsource
  · rw [String.utf8ByteSize_append, utf8ByteSize_ofList, ← hoffset, hstop]

/-- Behind a token the lexer is still in its source, and the token lies there. -/
theorem next (h : s.IsIn source) {t : Token} (hnext : s.next = .ok (t, s')) :
    s'.IsIn source ∧ t.span.LiesIn source := by
  fun_induction State.next s with
  | case1 s hrest =>
    cases hnext
    refine ⟨h, ?_⟩
    exact (h.liesIn (List.nil_append _) (Nat.add_zero _).symm).emptyAt
  | case2 => cases hnext
  | case3 s c cs hrest piece hcut hnone ih => exact ih (h.cut hcut).1 hnext
  | case4 s c cs hrest piece hcut kind hkind =>
    cases hnext
    exact h.cut hcut

/-- The character where no rule matches lies in the source. -/
theorem unmatched (h : s.IsIn source) {u : Unmatched} (hnext : s.next = .error u) :
    u.span.LiesIn source := by
  fun_induction State.next s with
  | case1 => cases hnext
  | case2 s c cs hrest hcut =>
    cases hnext
    have htext : [c] ++ cs = s.rest := hrest.symm
    exact h.liesIn htext rfl
  | case3 s c cs hrest piece hcut hnone ih => exact ih (h.cut hcut).1 hnext
  | case4 => cases hnext

/-- All tokens of a source lie in it. -/
theorem tokens (h : s.IsIn source) {ts : List Token} (hts : s.tokens = .ok ts) :
    ∀ t ∈ ts, t.span.LiesIn source := by
  induction ts generalizing s with
  | nil => exact List.forall_mem_nil _
  | cons t ts ih =>
    obtain ⟨first, s', hnext, ⟨-, hcons⟩ | ⟨-, rest, hrest, hcons⟩⟩ := State.tokens_cases hts
    · cases hcons
      exact List.forall_mem_singleton.2 (h.next hnext).2
    · cases hcons
      exact List.forall_mem_cons.2 ⟨(h.next hnext).2, ih (h.next hnext).1 hrest⟩

end State.IsIn

end Lexer

end BlockDiagram
