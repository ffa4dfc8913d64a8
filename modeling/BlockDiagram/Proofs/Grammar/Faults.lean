import BlockDiagram.Proofs.Except
import BlockDiagram.Proofs.Grammar.Evaluation

/-!
# Faults in derivations

What can go wrong where the grammar has a place for every token: a number that is too large, or a
direction that there is not (`fault_of_apply`). No token is out of place then
(`Derivation.ne_unexpected_of_evaluate`).
-/

namespace BlockDiagram.Grammar

open Token (Kind)

/-- Holds for tokens that name a direction, if they are there to state one. -/
def NamesDirection (kind : Kind) (t : Token) : Prop :=
  kind = .direction → ∃ direction, directionIn t = .ok direction

private theorem fault_of_numberIn {t : Token} {limit : Nat} {fault : Fault}
    (h : numberIn t limit = .error fault) : fault = .numberTooLarge t := by
  rw [numberIn] at h
  split at h
  · exact (Except.error.inj h).symm
  · cases h

private theorem fault_of_columnsIn {t : Token} {fault : Fault} (h : columnsIn t = .error fault) :
    fault = .numberTooLarge t := by
  rw [columnsIn] at h
  split at h
  · cases h
  · cases hnumber : numberIn t maxColumns with
    | error fault' =>
      rw [hnumber] at h
      cases h
      exact fault_of_numberIn hnumber
    | ok n =>
      rw [hnumber] at h
      cases h

private theorem fault_of_spacersIn {t : Token} {fault : Fault} (h : spacersIn t = .error fault) :
    fault = .numberTooLarge t := by
  rw [spacersIn] at h
  split at h
  · exact fault_of_numberIn h
  · cases h

private theorem fault_of_directionIn {t : Token} {fault : Fault}
    (h : directionIn t = .error fault) :
    (∃ name place, fault = .unknownDirection name place) ∧ ¬ NamesDirection .direction t := by
  constructor
  · rw [directionIn] at h
    split at h
    · cases h
    · exact ⟨_, _, (Except.error.inj h).symm⟩
  · intro hnames
    obtain ⟨direction, hok⟩ := hnames rfl
    rw [h] at hok
    cases hok

/-- What goes wrong when a rule is applied is a number in one of its tokens, or a direction. -/
theorem fault_of_apply {g : Gathering} {span : Source.Span} (p : Production)
    {values : Values p.rhs} {n : Nat} {fault : Fault}
    (h : (p.apply g span values).run n = .error fault) :
    (∃ t, fault = .numberTooLarge t ∧ ∀ P, AllTokens P p.rhs values → ∃ kind, P kind t) ∨
      (∃ name place, fault = .unknownDirection name place) ∧
        ¬ AllTokens NamesDirection p.rhs values := by
  cases p with
  | columns =>
    obtain ⟨token, ⟨⟩⟩ := values
    exact .inl ⟨_, fault_of_columnsIn (map_eq_error_iff.1 ((run_lift_map _ _ n).symm.trans h)),
      fun P hall ↦ ⟨_, hall.1⟩⟩
  | space =>
    obtain ⟨token, ⟨⟩⟩ := values
    exact .inl ⟨_, fault_of_spacersIn (map_eq_error_iff.1 ((run_lift_map _ _ n).symm.trans h)),
      fun P hall ↦ ⟨_, hall.1⟩⟩
  | sizedNode =>
    obtain ⟨node, width, ⟨⟩⟩ := values
    exact .inl ⟨_, fault_of_numberIn (map_eq_error_iff.1 ((run_lift_map _ _ n).symm.trans h)),
      fun P hall ↦ ⟨_, hall.1⟩⟩
  | lastDirection =>
    obtain ⟨token, ⟨⟩⟩ := values
    obtain ⟨hfault, hnot⟩ :=
      fault_of_directionIn (map_eq_error_iff.1 ((run_lift_map _ _ n).symm.trans h))
    exact .inr ⟨hfault, fun hall ↦ hnot hall.1⟩
  | moreDirections =>
    obtain ⟨token, directions, ⟨⟩⟩ := values
    obtain ⟨hfault, hnot⟩ :=
      fault_of_directionIn (map_eq_error_iff.1 ((run_lift_map _ _ n).symm.trans h))
    exact .inr ⟨hfault, fun hall ↦ hnot hall.1⟩
  | _ => cases h

private theorem ne_unexpected_of_apply {g : Gathering} {span : Source.Span} {p : Production}
    {values : Values p.rhs} {n : Nat} {fault : Fault}
    (h : (p.apply g span values).run n = .error fault) (t : Token) (expected : List Kind) :
    fault ≠ .unexpected t expected := by
  rcases fault_of_apply p h with ⟨t', rfl, -⟩ | ⟨⟨name, place, rfl⟩, -⟩ <;> exact Fault.noConfusion

/-- No token is out of place in a derivation. -/
theorem Derivation.ne_unexpected_of_evaluate {g : Gathering} {next : Token} {symbols : List Symbol}
    {d : Derivation symbols} {n : Nat} {fault : Fault}
    (h : (d.evaluate g next).run n = .error fault) (t : Token) (expected : List Kind) :
    fault ≠ .unexpected t expected := by
  induction d generalizing next n with
  | nil => cases h
  | token first rest ih =>
    rw [run_evaluate_token] at h
    exact ih (map_eq_error_iff.1 h)
  | rule p inner rest hinner hrest =>
    rw [run_evaluate_rule] at h
    split at h
    · next fault' heq =>
      cases h
      exact hinner heq
    · dsimp only at h
      split at h
      · next fault' heq =>
        cases h
        exact ne_unexpected_of_apply heq t expected
      · exact hrest (map_eq_error_iff.1 h)

end BlockDiagram.Grammar
