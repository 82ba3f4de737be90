import Mathlib.Data.List.Basic

/-! Lists: maps that change nothing, and the elements of a list once each, in the order in which they
first appear. -/
namespace List

variable {α : Type}

theorem map_eq_self_iff {f : α → α} {l : List α} : l.map f = l ↔ ∀ a ∈ l, f a = a := by
  have h := map_inj_left (l := l) (f := f) (g := id)
  rwa [map_id] at h

variable [BEq α] [LawfulBEq α]

/-- Elements left out before do not change which of two others appears first. -/
theorem idxOf_lt_of_filter {p : α → Bool} {l : List α} {a b : α} (ha : p a = true)
    (hb : p b = true) (h : (l.filter p).idxOf a < (l.filter p).idxOf b) :
    l.idxOf a < l.idxOf b := by
  induction l with
  | nil => exact h
  | cons c l ih =>
    by_cases hc : p c = true
    · rw [filter_cons_of_pos hc] at h
      by_cases hcb : c = b
      · rw [hcb, idxOf_cons_self] at h
        exact absurd h (Nat.not_lt_zero _)
      · by_cases hca : c = a
        · rw [hca, idxOf_cons_self, idxOf_cons_ne _ (hca ▸ hcb)]
          exact Nat.succ_pos _
        · rw [idxOf_cons_ne _ hca, idxOf_cons_ne _ hcb] at h ⊢
          exact Nat.succ_lt_succ (ih (Nat.lt_of_succ_lt_succ h))
    · have hca : c ≠ a := fun heq => hc (heq ▸ ha)
      have hcb : c ≠ b := fun heq => hc (heq ▸ hb)
      rw [filter_cons_of_neg hc] at h
      rw [idxOf_cons_ne _ hca, idxOf_cons_ne _ hcb]
      exact Nat.succ_lt_succ (ih h)

theorem pairwise_idxOf_eraseDups (l : List α) :
    l.eraseDups.Pairwise fun a b => l.idxOf a < l.idxOf b := by
  cases l with
  | nil => exact Pairwise.nil
  | cons c l =>
    have ih := pairwise_idxOf_eraseDups (l.filter fun a => !a == c)
    have hother : ∀ a ∈ (l.filter fun a => !a == c).eraseDups, (!a == c) = true :=
      fun a ha => (mem_filter.1 (mem_eraseDups.1 ha)).2
    have hne : ∀ a ∈ (l.filter fun a => !a == c).eraseDups, c ≠ a := by
      intro a ha
      have := hother a ha
      rintro rfl
      simp at this
    rw [eraseDups_cons, pairwise_cons]
    constructor
    · intro a ha
      rw [idxOf_cons_self, idxOf_cons_ne _ (hne a ha)]
      exact Nat.succ_pos _
    · apply ih.imp_of_mem
      intro a b ha hb h
      rw [idxOf_cons_ne _ (hne a ha), idxOf_cons_ne _ (hne b hb)]
      exact Nat.succ_lt_succ (idxOf_lt_of_filter (hother a ha) (hother b hb) h)
termination_by l.length
decreasing_by
  have := length_filter_le (fun a => !a == c) l
  simp only [length_cons]
  omega

theorem nodup_eraseDups (l : List α) : l.eraseDups.Nodup := by
  refine (pairwise_idxOf_eraseDups l).imp ?_
  rintro a b h rfl
  exact absurd h (Nat.lt_irrefl _)

end List
