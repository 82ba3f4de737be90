import Mathlib.Data.List.Forall2

/-! Outcomes of computations that may fail, taken apart. -/
namespace PromptChain.Outcome

variable {ε ε' α β : Type}

theorem bind_eq_ok_iff {x : Except ε α} {f : α → Except ε β} {b : β} :
    (x >>= f) = .ok b ↔ ∃ a, x = .ok a ∧ f a = .ok b := by
  cases x with
  | error e => simp [bind, Except.bind]
  | ok a => simp [bind, Except.bind]

theorem bind_eq_error_iff {x : Except ε α} {f : α → Except ε β} {e : ε} :
    (x >>= f) = .error e ↔ x = .error e ∨ ∃ a, x = .ok a ∧ f a = .error e := by
  cases x with
  | error u => simp [bind, Except.bind]
  | ok a => simp [bind, Except.bind]

theorem pure_eq_ok_iff {a b : α} : (pure a : Except ε α) = .ok b ↔ a = b := by
  simp [pure, Except.pure]

theorem map_eq_ok_iff {x : Except ε α} {f : α → β} {b : β} :
    x.map f = .ok b ↔ ∃ a, x = .ok a ∧ f a = b := by
  cases x with
  | error e => simp [Except.map]
  | ok a => simp [Except.map]

theorem map_eq_error_iff {x : Except ε α} {f : α → β} {e : ε} :
    x.map f = .error e ↔ x = .error e := by
  cases x with
  | error u => simp [Except.map]
  | ok a => simp [Except.map]

theorem mapError_eq_ok_iff {x : Except ε α} {f : ε → ε'} {a : α} :
    x.mapError f = .ok a ↔ x = .ok a := by
  cases x with
  | error e =>
    show Except.error (f e) = .ok a ↔ Except.error e = .ok a
    simp
  | ok b =>
    show Except.ok b = .ok a ↔ Except.ok b = .ok a
    simp

theorem mapError_eq_error_iff {x : Except ε α} {f : ε → ε'} {e : ε'} :
    x.mapError f = .error e ↔ ∃ u, x = .error u ∧ f u = e := by
  cases x with
  | error u =>
    show Except.error (f u) = .error e ↔ _
    simp
  | ok a =>
    show Except.ok a = .error e ↔ _
    simp

section Rows

variable {f : α → Except ε β}

theorem mapM_eq_ok_iff {l : List α} {l' : List β} :
    l.mapM f = .ok l' ↔ List.Forall₂ (fun a b => f a = .ok b) l l' := by
  induction l generalizing l' with
  | nil => rw [List.mapM_nil, pure_eq_ok_iff, List.forall₂_nil_left_iff, eq_comm]
  | cons a l ih =>
    simp only [List.mapM_cons, bind_eq_ok_iff, pure_eq_ok_iff, ih]
    constructor
    · rintro ⟨b, hb, l', hl, rfl⟩
      exact .cons hb hl
    · rintro (_ | ⟨hb, hl⟩)
      exact ⟨_, hb, _, hl, rfl⟩

/-- A row of computations fails as the first of them does that fails. -/
theorem mapM_eq_error {l : List α} {e : ε} (h : l.mapM f = .error e) :
    ∃ before a after, l = before ++ a :: after ∧ (∀ b ∈ before, ∀ u, f b ≠ .error u) ∧
      f a = .error e := by
  induction l with
  | nil => cases h
  | cons a l ih =>
    rw [List.mapM_cons, bind_eq_error_iff] at h
    rcases h with h | ⟨b, hb, h⟩
    · exact ⟨[], a, l, rfl, fun b hb => absurd hb List.not_mem_nil, h⟩
    · rw [bind_eq_error_iff] at h
      rcases h with h | ⟨l', -, h⟩
      · obtain ⟨before, c, after, rfl, hbefore, hc⟩ := ih h
        refine ⟨a :: before, c, after, rfl, ?_, hc⟩
        intro d hd u hu
        rcases List.mem_cons.1 hd with rfl | hd
        · rw [hb] at hu
          cases hu
        · exact hbefore d hd u hu
      · cases h

theorem exists_mapM_eq_error {l : List α} {a : α} (ha : a ∈ l) {u : ε} (h : f a = .error u) :
    ∃ e, l.mapM f = .error e := by
  induction l with
  | nil => cases ha
  | cons b l ih =>
    rw [List.mapM_cons]
    cases hb : f b with
    | error e => exact ⟨e, rfl⟩
    | ok c =>
      rcases List.mem_cons.1 ha with rfl | ha
      · rw [h] at hb
        cases hb
      · obtain ⟨e, he⟩ := ih ha
        exact ⟨e, bind_eq_error_iff.2 (Or.inr ⟨c, rfl, bind_eq_error_iff.2 (Or.inl he)⟩)⟩

end Rows

end PromptChain.Outcome
