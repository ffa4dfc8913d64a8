import BlockDiagram.Proofs.Lexer.Pieces
import Mathlib.Data.List.DropRight

/-!
# Positions and offsets

The position of a place between two characters counts the newlines in front of it and the characters
behind the last of them (`behind_first`). Every character moves the position on, so different places
have different positions, in the same order (`locate_strictMono`).
-/

namespace BlockDiagram.Source.Position

open Lexer (byteLength byteLength_append byteLength_toList utf8ByteSize_ofList)

variable {p q r : Position} {text front back : List Char}

/-! ### The order of positions -/

/-- Holds when the first position is on an earlier line, or farther left on the same one. -/
def Precedes (p q : Position) : Prop :=
  p.line < q.line ∨ p.line = q.line ∧ p.column < q.column

private theorem Precedes.trans (hpq : p.Precedes q) (hqr : q.Precedes r) : p.Precedes r := by
  unfold Precedes at *
  omega

private theorem Precedes.ne (h : p.Precedes q) : p ≠ q := by
  rintro rfl
  unfold Precedes at h
  omega

/-- A newline leads to a later line and any other character to a later column. -/
theorem precedes_after (p : Position) (c : Char) : p.Precedes (p.after c) := by
  unfold after
  split
  · exact .inl (Nat.lt_succ_self _)
  · exact .inr ⟨rfl, Nat.lt_succ_self _⟩

/-! ### Behind a text -/

/-- The position behind a text that starts at `p`. -/
def behind (p : Position) (text : List Char) : Position :=
  text.foldl after p

private theorem behind_append (p : Position) (front back : List Char) :
    p.behind (front ++ back) = (p.behind front).behind back :=
  List.foldl_append

/-- The position moves on over every text. -/
theorem precedes_behind (p : Position) (h : text ≠ []) : p.Precedes (p.behind text) := by
  induction text generalizing p with
  | nil => exact absurd rfl h
  | cons c text ih =>
    by_cases hempty : text = []
    · subst hempty
      exact p.precedes_after c
    · exact (p.precedes_after c).trans (ih (p.after c) hempty)

/-- The line counts the newlines, and the column the characters behind the last of them. -/
theorem behind_first (text : List Char) : first.behind text =
    ⟨text.count '\n' + 1, (text.rtakeWhile (· ≠ '\n')).length + 1⟩ := by
  induction text using List.reverseRecOn with
  | nil => rfl
  | append_singleton text c ih =>
    rw [behind_append, ih]
    show after _ c = _
    unfold after
    by_cases hc : c = '\n'
    · simp [hc]
    · simp [hc]

/-! ### Offsets -/

/-- Stepping over a text takes its bytes. -/
theorem advance_append (p : Position) (front back : List Char) (bytes : Nat) :
    p.advance (byteLength front + bytes) (front ++ back) = (p.behind front).advance bytes back := by
  induction front generalizing p with
  | nil =>
    show p.advance (0 + bytes) back = p.advance bytes back
    rw [Nat.zero_add]
  | cons c front ih =>
    have hbytes : byteLength (c :: front) + bytes = c.utf8Size + (byteLength front + bytes) :=
      Nat.add_assoc _ _ _
    rw [hbytes, List.cons_append, advance, if_pos (Nat.le_add_right _ _), Nat.add_sub_cancel_left]
    exact ih (p.after c)

/-- Nothing is stepped over in front of a character that takes more bytes. -/
theorem advance_of_lt {bytes : Nat} (p : Position) (h : ∀ c ∈ back.head?, bytes < c.utf8Size) :
    p.advance bytes back = p := by
  cases back with
  | nil => rfl
  | cons c back => rw [advance, if_neg (Nat.not_le.2 (h c rfl))]

/-- An offset that ends behind a text, or in the character behind it, has the position there. -/
theorem locate_add {source : String} {bytes : Nat} (hsource : source.toList = front ++ back)
    (h : ∀ c ∈ back.head?, bytes < c.utf8Size) :
    locate source (byteLength front + bytes) = first.behind front := by
  rw [locate, hsource, advance_append, advance_of_lt _ h]

private theorem locate_byteLength {source : String} (hsource : source.toList = front ++ back) :
    locate source (byteLength front) = first.behind front :=
  locate_add hsource fun c _ ↦ c.utf8Size_pos

/-- The places between characters are the ends of the fronts of a source. -/
theorem isValid_iff {source : String} {offset : Nat} :
    String.Pos.Raw.IsValid source ⟨offset⟩ ↔
      ∃ front back, source.toList = front ++ back ∧ offset = byteLength front := by
  rw [String.Pos.Raw.isValid_iff_exists_append]
  constructor
  · rintro ⟨front, back, rfl, hoffset⟩
    refine ⟨front.toList, back.toList, String.toList_append, ?_⟩
    rw [byteLength_toList]
    exact congrArg String.Pos.Raw.byteIdx hoffset
  · rintro ⟨front, back, hsource, rfl⟩
    refine ⟨String.ofList front, String.ofList back, ?_, ?_⟩
    · rw [← String.ofList_append, ← hsource, String.ofList_toList]
    · rw [← utf8ByteSize_ofList]
      rfl

/-- Of two fronts of a text the longer one goes on where the shorter one ends. -/
theorem exists_text_between {front' back' : List Char} (h : front ++ back = front' ++ back')
    (hlt : byteLength front < byteLength front') : ∃ text, text ≠ [] ∧ front' = front ++ text := by
  rcases List.append_eq_append_iff.1 h with ⟨text, rfl, -⟩ | ⟨text, rfl, -⟩
  · refine ⟨text, ?_, rfl⟩
    rintro rfl
    simp at hlt
  · rw [byteLength_append] at hlt
    omega

/-- A place between characters comes before a later one. -/
theorem locate_precedes {source : String} {i j : Nat} (hi : String.Pos.Raw.IsValid source ⟨i⟩)
    (hj : String.Pos.Raw.IsValid source ⟨j⟩) (h : i < j) :
    (locate source i).Precedes (locate source j) := by
  obtain ⟨front, back, hsource, rfl⟩ := isValid_iff.1 hi
  obtain ⟨front', back', hsource', rfl⟩ := isValid_iff.1 hj
  obtain ⟨text, htext, rfl⟩ := exists_text_between (hsource.symm.trans hsource') h
  rw [locate_byteLength hsource, locate_byteLength hsource', behind_append]
  exact precedes_behind _ htext

/-- Positions identify the places between the characters of a source: they come in the same order and
no two of them have the same position, which is found by counting newlines and the characters behind
the last of them. An offset in a character has the position of its start, and one behind the end that
of the end. -/
theorem locate_strictMono (source : String) :
    (∀ i j, String.Pos.Raw.IsValid source ⟨i⟩ → String.Pos.Raw.IsValid source ⟨j⟩ →
      (i < j ↔ (locate source i).Precedes (locate source j)) ∧
        (locate source i = locate source j → i = j)) ∧
    (∀ front back, source.toList = front ++ back → locate source (byteLength front) =
      ⟨front.count '\n' + 1, (front.rtakeWhile (· ≠ '\n')).length + 1⟩) ∧
    (∀ front c back, source.toList = front ++ c :: back → ∀ offset, byteLength front ≤ offset →
      offset < byteLength front + c.utf8Size →
        locate source offset = locate source (byteLength front)) ∧
    ∀ offset, source.utf8ByteSize ≤ offset →
      locate source offset = locate source source.utf8ByteSize := by
  refine ⟨fun i j hi hj ↦ ⟨⟨locate_precedes hi hj, fun h ↦ ?_⟩, fun h ↦ ?_⟩, ?_, ?_, ?_⟩
  · rcases Nat.lt_trichotomy i j with hlt | rfl | hlt
    · exact hlt
    · exact absurd rfl h.ne
    · exact absurd rfl (h.trans (locate_precedes hj hi hlt)).ne
  · rcases Nat.lt_trichotomy i j with hlt | heq | hlt
    · exact absurd h (locate_precedes hi hj hlt).ne
    · exact heq
    · exact absurd h.symm (locate_precedes hj hi hlt).ne
  · intro front back hsource
    rw [locate_byteLength hsource, behind_first]
  · intro front c back hsource offset hle hlt
    obtain ⟨bytes, rfl⟩ := Nat.exists_eq_add_of_le hle
    rw [locate_byteLength hsource]
    apply locate_add hsource
    rintro _ ⟨⟩
    omega
  · intro offset hle
    obtain ⟨bytes, rfl⟩ := Nat.exists_eq_add_of_le hle
    have hsource : source.toList = source.toList ++ [] := (List.append_nil _).symm
    rw [← byteLength_toList, locate_byteLength hsource]
    apply locate_add hsource
    simp

/-- Both bytes of the first letter have the position of the letter. -/
example : [0, 1, 2, 3, 4, 9].map (locate "é\na") =
    [⟨1, 1⟩, ⟨1, 1⟩, ⟨1, 2⟩, ⟨2, 1⟩, ⟨2, 2⟩, ⟨2, 2⟩] := by
  decide +kernel

end BlockDiagram.Source.Position
