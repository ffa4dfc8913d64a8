import BlockDiagram.Fault
import BlockDiagram.Proofs.Lexer.Pieces
import Mathlib.Data.List.DropRight

/-!
# Excerpts

An excerpt shows the ends of the texts in front of a place and behind it on one line
(`toList_excerpt`). What is left out of the front moves the pointer under the line as well, so it is
always under the character at the place, unless that is a newline (`excerpt_of_tokenize`).
-/

namespace BlockDiagram

namespace Source

open Lexer (byteLength)

variable {before after : List Char}

/-! ### Lines -/

private theorem newline_not_mem_onOneLine (cs : List Char) : '\n' ∉ onOneLine cs := by
  simp [onOneLine]

private theorem onOneLine_append (front back : List Char) :
    onOneLine (front ++ back) = onOneLine front ++ onOneLine back :=
  List.filter_append _ _

/-- Three dots in place of the characters that are left out, if there are any. -/
def ellipsis (isShortened : Prop) [Decidable isShortened] : List Char :=
  if isShortened then "...".toList else []

/-- The last characters of what was read are shown. -/
theorem excerptBefore_eq (before : List Char) : excerptBefore before =
    ellipsis (excerptWidth < before.length) ++ onOneLine (before.rtake excerptWidth) := by
  unfold excerptBefore
  split
  · next h =>
    rw [onOneLine_append, ellipsis, if_pos h]
    rfl
  · next h =>
    rw [ellipsis, if_neg h, List.nil_append, List.rtake, Nat.sub_eq_zero_of_le (Nat.le_of_not_lt h),
      List.drop_zero]

/-- The first characters of what is left are shown. -/
theorem excerptAfter_eq (after : List Char) : excerptAfter after =
    onOneLine (after.take excerptWidth) ++ ellipsis (excerptWidth < after.length) := by
  unfold excerptAfter
  split
  · next h =>
    rw [onOneLine_append, ellipsis, if_pos h]
    rfl
  · next h =>
    rw [ellipsis, if_neg h, List.append_nil, List.take_of_length_le (Nat.le_of_not_lt h)]

/-- What is left is shown from its first character on. -/
theorem head?_excerptAfter {c : Char} (hc : c ≠ '\n') (after : List Char) :
    (excerptAfter (c :: after)).head? = some c := by
  rw [excerptAfter_eq, excerptWidth, List.take_succ_cons]
  simp [onOneLine, hc]

/-! ### Pointers -/

private theorem splitAtByte_append (before after : List Char) :
    splitAtByte (byteLength before) (before ++ after) = (before, after) := by
  induction before with
  | nil =>
    cases after with
    | nil => rfl
    | cons c after =>
      have := c.utf8Size_pos
      rw [List.nil_append, splitAtByte, if_neg (by show ¬ _ ≤ 0; omega)]
  | cons c before ih =>
    have hbytes : byteLength (c :: before) = c.utf8Size + byteLength before := rfl
    rw [hbytes, List.cons_append, splitAtByte, if_pos (Nat.le_add_right _ _),
      Nat.add_sub_cancel_left, ih]

/-- The excerpt around a place between two characters. -/
theorem toList_excerpt {source : String} (hsource : source.toList = before ++ after) :
    (excerpt source (byteLength before)).toList = excerptBefore before ++ excerptAfter after ++
      '\n' :: (List.replicate (excerptBefore before).length '-' ++ ['^']) := by
  rw [excerpt, hsource, splitAtByte_append, String.toList_ofList]

/-- Holds for two lines of which the second one points at a character of the first one, with as many
dashes as there are characters in front of it. -/
structure PointsAt (excerpt : String) (shown : List Char) (column : Nat) (c : Char) : Prop where
  toList_eq : excerpt.toList = shown ++ '\n' :: (List.replicate column '-' ++ ['^'])
  newline_not_mem : '\n' ∉ shown
  getElem?_column : shown[column]? = some c

/-- The pointer is under the first character of what is left. -/
theorem excerpt_pointsAt {source : String} {c : Char}
    (hsource : source.toList = before ++ c :: after) (hc : c ≠ '\n') :
    PointsAt (excerpt source (byteLength before)) (excerptBefore before ++ excerptAfter (c :: after))
      (excerptBefore before).length c where
  toList_eq := toList_excerpt hsource
  newline_not_mem := by
    rw [List.mem_append, not_or]
    exact ⟨newline_not_mem_onOneLine _, newline_not_mem_onOneLine _⟩
  getElem?_column := by
    rw [List.getElem?_append_right (Nat.le_refl _), Nat.sub_self, ← List.head?_eq_getElem?,
      head?_excerptAfter hc]

end Source

namespace Lexer

open Source (PointsAt ellipsis onOneLine)

/-- The diagnostic of a character that no rule matches has an excerpt that points at the character,
unless that is a newline. It shows the last twenty characters in front of it and the first twenty
from it on, without the newlines among them, and dots where there are more. -/
theorem excerpt_of_tokenize {source : String} {u : Unmatched} (h : tokenize source = .error u)
    (hc : u.char ≠ '\n') :
    ∃ before after shown column excerpt, source.toList = before ++ u.char :: after ∧
      u.offset = byteLength before ∧
      ((Fault.unmatched u).diagnostic source).excerpt = some excerpt ∧
      PointsAt excerpt shown column u.char ∧
      shown = ellipsis (20 < before.length) ++ onOneLine (before.rtake 20) ++
        (onOneLine ((u.char :: after).take 20) ++ ellipsis (20 < (u.char :: after).length)) := by
  rcases tokenize_cases source with ⟨-, htokens⟩ | ⟨u', after, hsource, hoffset, herror⟩
  · rw [h] at htokens
    cases htokens
  · obtain rfl : u = u' := Except.error.inj (h.symm.trans herror)
    have hpoints := Source.excerpt_pointsAt hsource.symm hc
    rw [← hoffset] at hpoints
    refine ⟨_, after, _, _, _, hsource.symm, hoffset, rfl, hpoints, ?_⟩
    rw [Source.excerptBefore_eq, Source.excerptAfter_eq]
    rfl

/-- A source with a label without quotes, far from both its ends and behind newlines. -/
def unquoted : String :=
  "block-beta\n  a[\"é\"]\n  b[the label of b without quotes]"

/-- The first letter of the label matches no rule, and the pointer is under it. -/
theorem pointsAt_unquoted : tokenize unquoted = .error ⟨'t', 25⟩ ∧ ∃ shown column,
    PointsAt "...k-beta  a[\"é\"]  b[the label of b witho...\n---------------------^" shown column
      't' := by
  have herror : tokenize unquoted = .error ⟨'t', 25⟩ := by decide +kernel
  obtain ⟨before, after, shown, column, excerpt, -, -, hexcerpt, hpoints, -⟩ :=
    excerpt_of_tokenize herror (by decide)
  have hshown : ((Fault.unmatched ⟨'t', 25⟩).diagnostic unquoted).excerpt =
      some "...k-beta  a[\"é\"]  b[the label of b witho...\n---------------------^" := by
    decide +kernel
  obtain rfl := Option.some.inj (hexcerpt.symm.trans hshown)
  exact ⟨herror, shown, column, hpoints⟩

end Lexer

end BlockDiagram
