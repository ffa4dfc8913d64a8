/-!
# Blank characters

The characters that the Unicode property White_Space holds of, and cutting them off both ends of a
text. `trimBlank_eq` shows that trimming removes two blank runs and nothing else.
-/

namespace BlockDiagram.Text

/-- Holds for the characters with the Unicode property White_Space. -/
def isBlank (c : Char) : Bool :=
  let n := c.toNat
  (0x09 ≤ n && n ≤ 0x0d) || n == 0x20 || n == 0x85 || n == 0xa0 || n == 0x1680 ||
    (0x2000 ≤ n && n ≤ 0x200a) || n == 0x2028 || n == 0x2029 || n == 0x202f || n == 0x205f ||
    n == 0x3000

/-- The characters left after the blank ones at the end. -/
def trimEndBlank (cs : List Char) : List Char :=
  cs.foldr (fun c rest ↦ if rest.isEmpty && isBlank c then [] else c :: rest) []

/-- The characters between the blank runs at both ends. -/
def trimBlank (cs : List Char) : List Char :=
  trimEndBlank (cs.dropWhile isBlank)

/-- The text between the blank runs at both ends. -/
def trim (s : String) : String :=
  String.ofList (trimBlank s.toList)

@[simp] private theorem trimEndBlank_nil : trimEndBlank [] = [] := rfl

/-- A blank is left out if nothing but blanks are behind it. -/
theorem trimEndBlank_cons (c : Char) (cs : List Char) :
    trimEndBlank (c :: cs) =
      if (trimEndBlank cs).isEmpty && isBlank c then [] else c :: trimEndBlank cs := rfl

/-- What is cut off the end is blank. -/
theorem trimEndBlank_append (cs : List Char) :
    ∃ blanks, (∀ c ∈ blanks, isBlank c) ∧ cs = trimEndBlank cs ++ blanks := by
  induction cs with
  | nil => exact ⟨[], by simp⟩
  | cons c cs ih =>
    obtain ⟨blanks, hblanks, hcs⟩ := ih
    rw [trimEndBlank_cons]
    split
    · rename_i h
      simp only [Bool.and_eq_true, List.isEmpty_iff] at h
      rw [h.1, List.nil_append] at hcs
      exact ⟨c :: blanks, by simpa [h.2] using hblanks, by simp [hcs]⟩
    · exact ⟨blanks, hblanks, by simp [← hcs]⟩

/-- A blank run on each side is all that trimming removes. -/
theorem trimBlank_eq (cs : List Char) :
    ∃ before after, (∀ c ∈ before, isBlank c) ∧ (∀ c ∈ after, isBlank c) ∧
      cs = before ++ trimBlank cs ++ after := by
  obtain ⟨after, hafter, h⟩ := trimEndBlank_append (cs.dropWhile isBlank)
  refine ⟨cs.takeWhile isBlank, after, fun c hc ↦ ?_, hafter, ?_⟩
  · have hall : (cs.takeWhile isBlank).all isBlank = true := List.all_takeWhile
    exact List.all_eq_true.1 hall c hc
  · rw [List.append_assoc, trimBlank, ← h, List.takeWhile_append_dropWhile]

/-- A text that does not end in a blank character is kept, with whatever is in front of it. -/
theorem trimEndBlank_append_of_eq {back : List Char} (h : trimEndBlank back = back)
    (hback : back ≠ []) (front : List Char) : trimEndBlank (front ++ back) = front ++ back := by
  induction front with
  | nil => exact h
  | cons c front ih =>
    have hne : (front ++ back).isEmpty = false := by
      rw [List.isEmpty_eq_false_iff]
      exact List.append_ne_nil_of_right_ne_nil front hback
    rw [List.cons_append, trimEndBlank_cons, ih, hne]
    rfl

/-- Blank characters at the end make no difference. -/
theorem trimEndBlank_append_blanks (cs : List Char) {blanks : List Char}
    (h : ∀ c ∈ blanks, isBlank c = true) : trimEndBlank (cs ++ blanks) = trimEndBlank cs := by
  have hblanks : trimEndBlank blanks = [] := by
    induction blanks with
    | nil => rfl
    | cons c blanks ih =>
      rw [trimEndBlank_cons, ih (List.forall_mem_cons.1 h).2, (List.forall_mem_cons.1 h).1]
      rfl
  rw [trimEndBlank, List.foldr_append]
  change cs.foldr _ (trimEndBlank blanks) = _
  rw [hblanks]
  rfl

/-- Trimming leaves a text with blank runs around it that neither starts nor ends in a blank
character. -/
theorem trimBlank_between {before after : List Char} (hbefore : ∀ c ∈ before, isBlank c = true)
    (hafter : ∀ c ∈ after, isBlank c = true) {c : Char} {cs : List Char} (hc : isBlank c = false)
    (h : trimEndBlank (c :: cs) = c :: cs) :
    trimBlank (before ++ (c :: cs) ++ after) = c :: cs := by
  rw [trimBlank, List.append_assoc, List.dropWhile_append_of_pos hbefore, List.cons_append,
    List.dropWhile_cons_of_neg (by simp [hc]), ← List.cons_append, trimEndBlank_append_blanks _ hafter,
    h]

/-- A trimmed text has the characters between the blanks around it. -/
@[simp] theorem toList_trim (s : String) : (trim s).toList = trimBlank s.toList := by
  simp [trim]

end BlockDiagram.Text
