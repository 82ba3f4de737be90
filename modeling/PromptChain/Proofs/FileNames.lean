import PromptChain.Proofs.Calendar

/-! Names of files by the time at which they are written: in years of four digits, a later time has
a greater name. -/
namespace PromptChain

namespace Text

theorem append_lt_append {s s' t t' : Text} (hlength : s.length = s'.length) (h : s < s') :
    s ++ t < s' ++ t' := by
  induction s generalizing s' with
  | nil =>
    rw [List.eq_nil_of_length_eq_zero hlength.symm] at h
    exact absurd h (List.lt_irrefl [])
  | cons c s ih =>
    cases s' with
    | nil => cases hlength
    | cons c' s' =>
      rw [List.cons_append, List.cons_append, List.cons_lt_cons_iff]
      rcases List.cons_lt_cons_iff.1 h with hlt | ⟨heq, hlt⟩
      · exact Or.inl hlt
      · exact Or.inr ⟨heq, ih (Nat.succ.inj hlength) hlt⟩

theorem digitChar_lt {d e : Nat} (h : d < e) (he : e < 10) : Nat.digitChar d < Nat.digitChar e := by
  have hd : (Nat.digitChar d).toNat = 48 + d := Nat.toNat_digitChar_of_lt_ten (by omega)
  have he : (Nat.digitChar e).toNat = 48 + e := Nat.toNat_digitChar_of_lt_ten he
  change (Nat.digitChar d).toNat < (Nat.digitChar e).toNat
  omega

theorem padded_one {n : Nat} (h : n < 10) : padded 1 n = [Nat.digitChar n] := by
  have hdigit : ofNat n = [Nat.digitChar n] := Nat.toDigits_of_lt_base h
  rw [padded, hdigit]
  rfl

section Padded

variable {width m n : Nat} (hwidth : 0 < width)
include hwidth

theorem length_padded (h : n < 10 ^ width) : (padded width n).length = width := by
  have hle : (ofNat n).length ≤ width := (Nat.length_toDigits_le_iff (by decide) hwidth).2 h
  rw [padded, List.length_append, List.length_replicate]
  omega

/-- The last digit of a numeral stands apart from the others. -/
theorem padded_succ : padded (width + 1) n = padded width (n / 10) ++ [Nat.digitChar (n % 10)] := by
  by_cases hn : n < 10
  · have hdigit : ofNat n = [Nat.digitChar n] := Nat.toDigits_of_lt_base hn
    have hzero : ofNat 0 = ['0'] := rfl
    have hfront : n / 10 = 0 := by omega
    have hlast : n % 10 = n := by omega
    rw [padded, padded, hfront, hlast, hdigit, hzero]
    obtain ⟨k, rfl⟩ : ∃ k, width = k + 1 := ⟨width - 1, by omega⟩
    change List.replicate (k + 1) '0' ++ _ = List.replicate k '0' ++ ['0'] ++ _
    rw [List.replicate_succ']
  · have hdigits : ofNat n = ofNat (n / 10) ++ [Nat.digitChar (n % 10)] :=
      Nat.toDigits_of_base_le (by decide) (by omega)
    rw [padded, padded, hdigits, List.length_append, List.length_singleton, Nat.add_sub_add_right,
      List.append_assoc]

/-- Numerals of one length are in the order of their numbers. -/
theorem padded_lt_padded (h : m < n) (hn : n < 10 ^ width) : padded width m < padded width n := by
  induction hwidth generalizing m n with
  | refl =>
    rw [padded_one (by omega), padded_one (by omega)]
    exact List.cons_lt_cons_iff.2 (Or.inl (digitChar_lt h (by omega)))
  | @step width hwidth ih =>
    have hwidth : 0 < width := hwidth
    have hfront : n / 10 < 10 ^ width := by
      rw [Nat.succ_eq_add_one, Nat.pow_succ] at hn
      omega
    rw [padded_succ hwidth, padded_succ hwidth]
    by_cases heq : m / 10 = n / 10
    · rw [heq]
      have hlast : Nat.digitChar (m % 10) < Nat.digitChar (n % 10) :=
        digitChar_lt (by omega) (by omega)
      exact List.append_left_lt (List.cons_lt_cons_iff.2 (Or.inl hlast))
    · have hlt : m / 10 < n / 10 := by omega
      have hlength : (padded width (m / 10)).length = (padded width (n / 10)).length := by
        rw [length_padded hwidth (by omega), length_padded hwidth hfront]
      exact append_lt_append hlength (ih hlt hfront)

end Padded

/-- Numbers in a format: each has a width, and a mark after it. -/
def inFormat : List (Nat × Char) → List Nat → Text
  | (width, mark) :: format, n :: numbers => padded width n ++ mark :: inFormat format numbers
  | _, _ => []

def Fits (format : List (Nat × Char)) (numbers : List Nat) : Prop :=
  List.Forall₂ (fun part n => 0 < part.1 ∧ n < 10 ^ part.1) format numbers

/-- Texts in one format are in the order of their numbers, the first number first, whatever
follows. -/
theorem inFormat_append_lt {format : List (Nat × Char)} {numbers numbers' : List Nat}
    (hfits : Fits format numbers) (hfits' : Fits format numbers') (h : numbers < numbers')
    (t t' : Text) : inFormat format numbers ++ t < inFormat format numbers' ++ t' := by
  unfold Fits at hfits hfits'
  induction hfits generalizing numbers' with
  | nil =>
    cases hfits'
    exact absurd h (List.lt_irrefl [])
  | @cons part n format numbers hn hfits ih =>
    cases hfits' with
    | @cons _ n' _ numbers' hn' hfits' =>
      rw [inFormat, inFormat, List.append_assoc, List.append_assoc]
      rcases List.cons_lt_cons_iff.1 h with hlt | ⟨rfl, hlt⟩
      · have hlength : (padded part.1 n).length = (padded part.1 n').length := by
          rw [length_padded hn.1 hn.2, length_padded hn'.1 hn'.2]
        exact append_lt_append hlength (padded_lt_padded hn.1 hlt hn'.2)
      · exact List.append_left_lt (List.cons_lt_cons_iff.2 (Or.inr ⟨rfl, ih hfits' hlt⟩))

end Text

namespace Instant

def parts (i : Instant) : List Nat :=
  [i.year.toNat, i.month, i.day, i.hour, i.minute, i.second, i.millisecond]

/-- The widths of the parts, and the marks after them. -/
def format : List (Nat × Char) :=
  [(4, '-'), (2, '-'), (2, 'T'), (2, ':'), (2, ':'), (2, '.'), (3, 'Z')]

/-- Years of four digits are written without a sign. -/
def InFourDigits (i : Instant) : Prop :=
  0 ≤ i.year ∧ i.year ≤ 9999

instance (i : Instant) : Decidable i.InFourDigits :=
  inferInstanceAs (Decidable (0 ≤ i.year ∧ i.year ≤ 9999))

theorem text_eq_inFormat {i : Instant} (h : i.InFourDigits) :
    i.text = Text.inFormat format i.parts := by
  have hyear : yearText i.year = Text.padded 4 i.year.toNat := by
    have hsign : ¬i.year < 0 := by
      have := h.1
      omega
    have habs : i.year.natAbs = i.year.toNat := by omega
    rw [yearText, if_neg hsign, if_pos h.2, habs]
  rw [text, hyear]
  simp only [parts, format, Text.inFormat, List.append_assoc, List.cons_append]

section OfMillis

def timeParts (time : Nat) : List Nat :=
  [time / 3600000, time / 60000 % 60, time / 1000 % 60, time % 1000]

theorem timeParts_lt {time time' : Nat} (h : time < time') : timeParts time < timeParts time' := by
  have hsum : ∀ t, t = 3600000 * (t / 3600000) + 60000 * (t / 60000 % 60) + 1000 * (t / 1000 % 60) +
      t % 1000 := by
    intro t
    omega
  have htime := hsum time
  have htime' := hsum time'
  simp only [timeParts, List.cons_lt_cons_iff, List.lt_irrefl, and_false, or_false]
  omega

/-- The day of a time, and the time since it began. -/
theorem exists_day (millis : Int) :
    ∃ days : Int, ∃ time : Nat, time < 86400000 ∧ millis = 86400000 * days + time ∧
      (ofMillis millis).year = (civil days).1 ∧
      (ofMillis millis).parts =
        (civil days).1.toNat :: (civil days).2.1 :: (civil days).2.2 :: timeParts time := by
  have hquotient : millis.fdiv dayLength = millis / 86400000 :=
    Int.fdiv_eq_ediv_of_nonneg _ (by decide)
  have hremainder : millis.fmod dayLength = millis % 86400000 :=
    Int.fmod_eq_emod_of_nonneg _ (by decide)
  refine ⟨millis.fdiv dayLength, (millis.fmod dayLength).toNat, by omega, by omega, rfl, rfl⟩

variable {millis later : Int}

theorem ofMillis_fits (h : (ofMillis millis).InFourDigits) :
    Text.Fits format (ofMillis millis).parts := by
  obtain ⟨days, time, htime, -, hyear, hparts⟩ := exists_day millis
  have hbounds := civil_bounds days
  unfold InFourDigits at h
  rw [hyear] at h
  rw [hparts]
  have hdate : (civil days).1.toNat < 10 ^ 4 ∧ (civil days).2.1 < 10 ^ 2 ∧
      (civil days).2.2 < 10 ^ 2 := by
    omega
  have htimes : time / 3600000 < 10 ^ 2 ∧ time / 60000 % 60 < 10 ^ 2 ∧ time / 1000 % 60 < 10 ^ 2 ∧
      time % 1000 < 10 ^ 3 := by
    omega
  exact .cons ⟨by decide, hdate.1⟩ <| .cons ⟨by decide, hdate.2.1⟩ <|
    .cons ⟨by decide, hdate.2.2⟩ <| .cons ⟨by decide, htimes.1⟩ <|
    .cons ⟨by decide, htimes.2.1⟩ <| .cons ⟨by decide, htimes.2.2.1⟩ <|
    .cons ⟨by decide, htimes.2.2.2⟩ .nil

/-- Of two times, the earlier one is less in the first part that is not the same. -/
theorem parts_lt_parts (h : millis < later) (hfirst : 0 ≤ (ofMillis millis).year) :
    (ofMillis millis).parts < (ofMillis later).parts := by
  obtain ⟨days, time, htime, hmillis, hyear, hparts⟩ := exists_day millis
  obtain ⟨days', time', htime', hlater, -, hparts'⟩ := exists_day later
  rw [hyear] at hfirst
  rw [hparts, hparts']
  by_cases hdays : days = days'
  · subst hdays
    have hlt := timeParts_lt (show time < time' by omega)
    change [_, _, _] ++ timeParts time < [_, _, _] ++ timeParts time'
    exact List.append_left_lt hlt
  · have hearlier := earlier_civil (show days < days' by omega)
    unfold Earlier at hearlier
    simp only [List.cons_lt_cons_iff]
    omega

theorem text_append_lt (h : millis < later) (hfirst : (ofMillis millis).InFourDigits)
    (hsecond : (ofMillis later).InFourDigits) (t : Text) :
    (ofMillis millis).text ++ t < (ofMillis later).text ++ t := by
  rw [text_eq_inFormat hfirst, text_eq_inFormat hsecond]
  exact Text.inFormat_append_lt (ofMillis_fits hfirst) (ofMillis_fits hsecond)
    (parts_lt_parts h hfirst.1) t t

theorem fileName_lt_fileName (h : millis < later) (hfirst : (ofMillis millis).InFourDigits)
    (hsecond : (ofMillis later).InFourDigits) :
    (ofMillis millis).fileName < (ofMillis later).fileName := by
  have htext := text_append_lt h hfirst hsecond ".json".toList
  unfold fileName
  rw [List.append_assoc, List.append_assoc]
  exact List.append_left_lt htext

end OfMillis

end Instant

end PromptChain
