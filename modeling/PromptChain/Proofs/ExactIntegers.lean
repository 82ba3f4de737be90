import Mathlib.Algebra.Order.Ring.Nat
import Mathlib.Data.Nat.Log
import Mathlib.Tactic.Ring
import PromptChain.Binary64.Basic

/-! Integers that are kept when they are rounded to binary floating-point numbers. -/
namespace PromptChain.Binary64

/-- A natural number that has at most 53 bits, zeros at its end apart. -/
def Representable (n : Nat) : Prop :=
  ∃ m k, m < 2 ^ 53 ∧ n = m * 2 ^ k

theorem exists_one_eq : ∃ u, u = 1074 ∧ one = 2 ^ u := by
  unfold one
  generalize 1074 = u
  exact ⟨u, rfl, Nat.pow_eq⟩

theorem one_pos : 0 < one := by
  obtain ⟨u, -, hone⟩ := exists_one_eq
  rw [hone]
  exact Nat.pow_pos (by omega)

theorem limit_eq : limit = 2 ^ 53 := rfl

-- The number of units in one is never evaluated.
attribute [local irreducible] one

theorem magnitude_eq (x : Binary64) : x.magnitude = x.significand * 2 ^ x.power := rfl

theorem roundEven_of_dvd {num den : Nat} (hden : 0 < den) (h : den ∣ num) :
    roundEven num den = num / den := by
  have hmod : num % den = 0 := Nat.mod_eq_zero_of_dvd h
  unfold roundEven
  rw [if_pos]
  left
  omega

theorem roundEven_le (num den : Nat) : roundEven num den ≤ num / den + 1 := by
  unfold roundEven
  dsimp only
  split_ifs <;> omega

/-- The quotient by the power that is chosen has at most 53 bits. -/
theorem div_powerFor_lt (q : Nat) : q / 2 ^ powerFor q < limit := by
  unfold powerFor
  split_ifs with h
  · simpa using h
  · have hq : q ≠ 0 := by
      rintro rfl
      exact h (by decide)
    have hlog : 53 ≤ q.log2 := by
      rw [Nat.le_log2 hq, ← limit_eq]
      omega
    apply Nat.div_lt_of_lt_mul
    rw [limit_eq, ← Nat.pow_add]
    have hexp : q.log2 - 52 + 53 = q.log2 + 1 := by omega
    rw [hexp]
    exact Nat.lt_log2_self

theorem significand_lt {negative : Bool} {num den : Nat} {x : Binary64}
    (h : round? negative num den = some x) : x.significand < limit := by
  unfold round? at h
  dsimp only at h
  have hle : roundEven num (den * 2 ^ powerFor (num / den)) ≤ limit := by
    have hround := roundEven_le num (den * 2 ^ powerFor (num / den))
    have hquotient := div_powerFor_lt (num / den)
    rw [Nat.div_div_eq_div_mul] at hquotient
    omega
  simp only [Nat.pow_eq] at h
  split_ifs at h with hlimit hpower hpower
  · cases h
    change halfLimit < limit
    decide
  · cases h
    change roundEven num (den * 2 ^ powerFor (num / den)) < limit
    omega

/-- Rounding a number of units that its power of two divides loses nothing. -/
theorem round?_of_dvd (negative : Bool) {q : Nat} (hdvd : 2 ^ powerFor q ∣ q)
    (hpower : powerFor q ≤ 2045) :
    round? negative q 1 = some ⟨negative, q / 2 ^ powerFor q, powerFor q⟩ := by
  have hround : roundEven q (2 ^ powerFor q) = q / 2 ^ powerFor q :=
    roundEven_of_dvd (Nat.pow_pos (by omega)) hdvd
  have hne : q / 2 ^ powerFor q ≠ limit := by
    have := div_powerFor_lt q
    omega
  unfold round?
  simp only [Nat.pow_eq, Nat.div_one, Nat.one_mul, hround]
  rw [if_neg hne, if_pos hpower]

theorem log2_lt_of_representable {m k u : Nat} (hm : m < 2 ^ 53) (hne : m * 2 ^ k * 2 ^ u ≠ 0) :
    (m * 2 ^ k * 2 ^ u).log2 < 53 + k + u := by
  rw [Nat.log2_lt hne, Nat.pow_add, Nat.pow_add]
  have hpos : 0 < 2 ^ k * 2 ^ u := Nat.mul_pos (Nat.pow_pos (by omega)) (Nat.pow_pos (by omega))
  rw [Nat.mul_assoc, Nat.mul_assoc]
  exact Nat.mul_lt_mul_of_pos_right hm hpos

theorem powerFor_le_of_representable {m k : Nat} (hm : m < 2 ^ 53) {u : Nat} :
    powerFor (m * 2 ^ k * 2 ^ u) ≤ k + u := by
  unfold powerFor
  split_ifs with h
  · omega
  · have hne : m * 2 ^ k * 2 ^ u ≠ 0 := by
      intro hzero
      rw [hzero] at h
      exact h (by decide)
    have := log2_lt_of_representable hm hne
    omega

theorem pow_powerFor_dvd {n : Nat} (h : Representable n) : 2 ^ powerFor (n * one) ∣ n * one := by
  obtain ⟨m, k, hm, rfl⟩ := h
  obtain ⟨u, -, hone⟩ := exists_one_eq
  rw [hone]
  have hle : powerFor (m * 2 ^ k * 2 ^ u) ≤ k + u := powerFor_le_of_representable hm
  have hdvd : 2 ^ powerFor (m * 2 ^ k * 2 ^ u) ∣ 2 ^ (k + u) := Nat.pow_dvd_pow 2 hle
  rw [Nat.mul_assoc, ← Nat.pow_add] at hdvd ⊢
  exact hdvd.mul_left m

theorem powerFor_le {n : Nat} (h : n < 2 ^ 63) : powerFor (n * one) ≤ 2045 := by
  obtain ⟨u, hu, hone⟩ := exists_one_eq
  unfold powerFor
  split_ifs with hlimit
  · omega
  · have hne : n * one ≠ 0 := by
      intro hzero
      rw [hzero] at hlimit
      exact hlimit (by decide)
    have hlog : (n * one).log2 < 63 + u := by
      rw [Nat.log2_lt hne, Nat.pow_add, hone]
      exact Nat.mul_lt_mul_of_pos_right h (Nat.pow_pos (by omega))
    omega

theorem toInt?_eq_none_iff {x : Binary64} :
    x.toInt? = none ↔ ¬(one ∣ x.magnitude ∧ x.magnitude < 2 ^ 63 * one) := by
  unfold toInt?
  rw [Nat.dvd_iff_mod_eq_zero, Nat.pow_eq]
  split_ifs with h <;> simp [h]

theorem toInt?_of_magnitude {x : Binary64} {n : Nat} (hx : x.magnitude = n * one)
    (hn : n < 2 ^ 63) : x.toInt? = some (if x.negative then -(n : Int) else n) := by
  have hmod : x.magnitude % one = 0 := by rw [hx, Nat.mul_mod_left]
  have hlt : x.magnitude < Nat.pow 2 63 * one := by
    rw [hx]
    exact Nat.mul_lt_mul_of_pos_right hn one_pos
  have hdiv : x.magnitude / one = n := by rw [hx, Nat.mul_div_cancel n one_pos]
  unfold toInt?
  rw [if_pos ⟨hmod, hlt⟩, hdiv]

theorem magnitude_of_toInt? {x : Binary64} {n : Int} (h : x.toInt? = some n) :
    x.magnitude = n.natAbs * one ∧ n.natAbs < 2 ^ 63 := by
  unfold toInt? at h
  split at h
  · next hint =>
    rw [Nat.pow_eq] at hint
    have hn := Option.some.inj h
    have habs : n.natAbs = x.magnitude / one := by
      generalize x.magnitude / one = q at hn ⊢
      split_ifs at hn <;> omega
    have hdiv : x.magnitude / one * one = x.magnitude :=
      Nat.div_mul_cancel (Nat.dvd_of_mod_eq_zero hint.1)
    rw [habs, hdiv]
    exact ⟨rfl, (Nat.div_lt_iff_lt_mul one_pos).2 hint.2⟩
  · cases h

/-- An integer that a number of 53 bits stands for has no more bits, zeros at its end apart. -/
theorem representable_of_magnitude {x : Binary64} {n : Nat} (hx : x.magnitude = n * one)
    (hs : x.significand < limit) : Representable n := by
  obtain ⟨u, -, hone⟩ := exists_one_eq
  rw [magnitude_eq, hone] at hx
  by_cases hp : u ≤ x.power
  · refine ⟨x.significand, x.power - u, hs, ?_⟩
    have hsplit : x.significand * 2 ^ x.power = x.significand * 2 ^ (x.power - u) * 2 ^ u := by
      rw [Nat.mul_assoc, ← Nat.pow_add, Nat.sub_add_cancel hp]
    rw [hsplit] at hx
    exact (Nat.eq_of_mul_eq_mul_right (Nat.pow_pos (by omega)) hx).symm
  · refine ⟨n, 0, ?_, by simp⟩
    have hsplit : n * 2 ^ u = n * 2 ^ (u - x.power) * 2 ^ x.power := by
      rw [Nat.mul_assoc, ← Nat.pow_add, Nat.sub_add_cancel (by omega)]
    rw [hsplit] at hx
    have hs' := Nat.eq_of_mul_eq_mul_right (Nat.pow_pos (by omega)) hx
    have hpos : 0 < 2 ^ (u - x.power) := Nat.pow_pos (by omega)
    have hle : n ≤ n * 2 ^ (u - x.power) := Nat.le_mul_of_pos_right n hpos
    rw [limit_eq] at hs
    omega

/-- An integer is kept by rounding to a number and back if it is below 2^63 in magnitude and has at
most 53 bits, zeros at its end apart. -/
theorem bind_ofInt?_toInt?_iff {n : Int} :
    (ofInt? n).bind toInt? = some n ↔ n.natAbs < 2 ^ 63 ∧ Representable n.natAbs := by
  constructor
  · intro h
    obtain ⟨x, hx, hn⟩ := Option.bind_eq_some_iff.1 h
    obtain ⟨hmagnitude, hlt⟩ := magnitude_of_toInt? hn
    exact ⟨hlt, representable_of_magnitude hmagnitude (significand_lt hx)⟩
  · rintro ⟨hlt, hrep⟩
    have hdvd := pow_powerFor_dvd hrep
    have hround := round?_of_dvd (decide (n < 0)) hdvd (powerFor_le hlt)
    rw [ofInt?, hround, Option.bind_some]
    have hmagnitude : magnitude ⟨decide (n < 0), n.natAbs * one / 2 ^ powerFor (n.natAbs * one),
        powerFor (n.natAbs * one)⟩ = n.natAbs * one := by
      rw [magnitude_eq, Nat.div_mul_cancel hdvd]
    have hsign : (if decide (n < 0) = true then -(n.natAbs : Int) else n.natAbs) = n := by
      split_ifs with hneg
      · have := of_decide_eq_true hneg
        omega
      · have : ¬n < 0 := fun h => hneg (decide_eq_true h)
        omega
    exact (toInt?_of_magnitude hmagnitude hlt).trans (congrArg some hsign)

end PromptChain.Binary64
