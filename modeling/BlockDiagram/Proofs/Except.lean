import Mathlib.Data.List.Forall2

/-!
# Results that may be errors

What is known of parts when a whole succeeds or fails, for two steps in a row (`bind_eq_ok_iff`,
`bind_eq_error_iff`), for a change of a result (`map_eq_ok_iff`) and for a step that is taken for
every element of a list (`mapM_eq_ok_iff`).
-/

namespace BlockDiagram

variable {ε α β : Type} {result : Except ε α} {e : ε}

/-- A result that is there as an option is no error. -/
theorem eq_ok_of_toOption {a : α} (h : result.toOption = some a) : result = .ok a := by
  cases result with
  | error e => cases h
  | ok b => rw [Option.some.inj h]

/-- Two steps succeed when the first one does, and the second one from what it gives. -/
theorem bind_eq_ok_iff {f : α → Except ε β} {b : β} :
    result >>= f = .ok b ↔ ∃ a, result = .ok a ∧ f a = .ok b := by
  cases result with
  | error e =>
    constructor
    · intro h
      cases h
    · rintro ⟨a, h, -⟩
      cases h
  | ok a =>
    constructor
    · exact fun h ↦ ⟨a, rfl, h⟩
    · rintro ⟨a', h, hf⟩
      cases h
      exact hf

/-- Two steps fail when the first one does, or when the second one does behind it. -/
theorem bind_eq_error_iff {f : α → Except ε β} :
    result >>= f = .error e ↔ result = .error e ∨ ∃ a, result = .ok a ∧ f a = .error e := by
  cases result with
  | error e' =>
    constructor
    · intro h
      cases h
      exact .inl rfl
    · rintro (h | ⟨a, h, -⟩)
      · cases h
        rfl
      · cases h
  | ok a =>
    constructor
    · exact fun h ↦ .inr ⟨a, rfl, h⟩
    · rintro (h | ⟨a', h, hf⟩)
      · cases h
      · cases h
        exact hf

/-- Two steps succeed if the first one does, and the second one from whatever that gives. -/
theorem exists_bind_eq_ok {f : α → Except ε β} (h : ∃ a, result = .ok a)
    (hf : ∀ a, ∃ b, f a = .ok b) : ∃ b, result >>= f = .ok b := by
  obtain ⟨a, rfl⟩ := h
  exact hf a

/-- What a result is changed to comes from the result. -/
theorem map_eq_ok_iff {f : α → β} {b : β} :
    result.map f = .ok b ↔ ∃ a, result = .ok a ∧ f a = b := by
  cases result with
  | error e =>
    constructor
    · intro h
      cases h
    · rintro ⟨a, h, -⟩
      cases h
  | ok a =>
    constructor
    · exact fun h ↦ ⟨a, rfl, Except.ok.inj h⟩
    · rintro ⟨a', h, rfl⟩
      cases h
      rfl

/-- A change of what a step gives leaves its error as it is. -/
theorem map_eq_error_iff {f : α → β} : result.map f = .error e ↔ result = .error e := by
  cases result with
  | error e' =>
    constructor
    · intro h
      cases h
      rfl
    · intro h
      cases h
      rfl
  | ok a =>
    constructor
    · intro h
      cases h
    · intro h
      cases h

/-- A loop succeeds if its steps do. -/
theorem exists_foldlM_eq_ok {f : α → β → Except ε α} (hf : ∀ a b, ∃ a', f a b = .ok a')
    (xs : List β) (a : α) : ∃ a', xs.foldlM f a = .ok a' := by
  induction xs generalizing a with
  | nil => exact ⟨a, rfl⟩
  | cons x xs ih =>
    rw [List.foldlM_cons]
    exact exists_bind_eq_ok (hf a x) ih

section

variable {f : α → Except ε β} {xs : List α}

/-- A step for every element of a list gives what the single steps give. -/
theorem mapM_eq_ok_iff {ys : List β} :
    xs.mapM f = .ok ys ↔ List.Forall₂ (fun x y ↦ f x = .ok y) xs ys := by
  induction xs generalizing ys with
  | nil =>
    rw [List.mapM_nil, List.forall₂_nil_left_iff]
    exact ⟨fun h ↦ (Except.ok.inj h).symm, fun h ↦ h ▸ rfl⟩
  | cons x xs ih =>
    rw [List.mapM_cons, List.forall₂_cons_left_iff]
    simp only [← ih, bind_eq_ok_iff]
    constructor
    · rintro ⟨y, hy, ys', hys', h⟩
      cases h
      exact ⟨y, ys', hy, hys', rfl⟩
    · rintro ⟨y, ys', hy, hys', rfl⟩
      exact ⟨y, hy, ys', hys', rfl⟩

/-- Every result of such steps comes from some element. -/
theorem exists_mem_of_mapM_eq_ok {ys : List β} (h : xs.mapM f = .ok ys) :
    ∀ y ∈ ys, ∃ x ∈ xs, f x = .ok y := by
  rw [mapM_eq_ok_iff] at h
  induction h with
  | nil => simp
  | @cons x y xs ys hfirst _ ih =>
    refine List.forall_mem_cons.2 ⟨⟨x, List.mem_cons_self, hfirst⟩, fun z hz ↦ ?_⟩
    obtain ⟨w, hw, hfw⟩ := ih z hz
    exact ⟨w, List.mem_cons_of_mem x hw, hfw⟩

/-- A step for every element of a list fails with the error of one of them. -/
theorem exists_mem_of_mapM_eq_error (h : xs.mapM f = .error e) : ∃ x ∈ xs, f x = .error e := by
  induction xs with
  | nil => cases h
  | cons x xs ih =>
    rw [List.mapM_cons, bind_eq_error_iff] at h
    rcases h with hx | ⟨y, -, h⟩
    · exact ⟨x, List.mem_cons_self, hx⟩
    · rcases bind_eq_error_iff.1 h with hxs | ⟨ys, -, h⟩
      · obtain ⟨x', hx', hfault⟩ := ih hxs
        exact ⟨x', List.mem_cons_of_mem x hx', hfault⟩
      · cases h

end

end BlockDiagram
