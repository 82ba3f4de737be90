import Mathlib.Data.List.Basic
import Mathlib.Data.List.Induction
import PromptChain.Step

/-! Names of outputs: no two outputs share a name, and which numerals spell a step's number. -/
namespace PromptChain

namespace Text

private theorem toNat_of_isDigit {c : Char} (h : c.isDigit = true) :
    48 ≤ c.toNat ∧ c.toNat ≤ 57 := by
  simp only [Char.isDigit, Bool.and_eq_true, decide_eq_true_eq, ge_iff_le] at h
  exact h

theorem isDecimalDigit_of_isDigit {c : Char} (h : c.isDigit = true) : isDecimalDigit c = true := by
  obtain ⟨hl, hu⟩ := toNat_of_isDigit h
  unfold isDecimalDigit decimalDigits inRanges
  simp only [List.any_cons, hl, hu, decide_true, Bool.and_self, Bool.true_or]

theorem ofNat_ne_nil (n : Nat) : ofNat n ≠ [] :=
  Nat.toDigits_ne_nil

theorem underscore_notMem_ofNat (n : Nat) : '_' ∉ ofNat n := by
  intro h
  have hd := isDigit_of_mem_ofNat h
  exact absurd hd (by decide)

private theorem digitChar_of_isDigit {c : Char} (h : c.isDigit = true) :
    Nat.digitChar (c.toNat - '0'.toNat) = c ∧ c.toNat - '0'.toNat < 10 := by
  obtain ⟨hl, hu⟩ := toNat_of_isDigit h
  have hlt : c.toNat - '0'.toNat < 10 := by
    change c.toNat - 48 < 10
    omega
  refine ⟨?_, hlt⟩
  apply Char.toNat_inj.1
  rw [Nat.toNat_digitChar_of_lt_ten hlt]
  change 48 + (c.toNat - 48) = c.toNat
  omega

/-- A row of digits that starts with no zero is the numeral of the number that it denotes. -/
theorem ofNat_digitsValue {digits : Text} (hne : digits ≠ []) (hd : digits.all Char.isDigit = true)
    (hz : digits.head? ≠ some '0') : ofNat (digitsValue digits) = digits := by
  induction digits using List.reverseRecOn with
  | nil => exact absurd rfl hne
  | append_singleton front c ih =>
    simp only [List.all_append, List.all_cons, List.all_nil, Bool.and_true,
      Bool.and_eq_true] at hd
    obtain ⟨hc, hlt⟩ := digitChar_of_isDigit hd.2
    have hv : digitsValue (front ++ [c]) = 10 * digitsValue front + (c.toNat - '0'.toNat) := by
      simp only [digitsValue, Nat.ofDigitChars_append, Nat.ofDigitChars_cons, Nat.ofDigitChars_nil]
    have hlast : Nat.toDigits 10 (c.toNat - '0'.toNat) = [c] := by
      rw [Nat.toDigits_of_lt_base hlt, hc]
    by_cases hf : front = []
    · subst hf
      rw [hv]
      simpa [ofNat, digitsValue] using hlast
    · have hz' : front.head? ≠ some '0' := by
        rwa [List.head?_append_of_ne_nil _ hf] at hz
      have hfront := ih hf hd.1 hz'
      -- A value of zero would make the front the numeral of zero, which starts with a zero.
      have hpos : 0 < digitsValue front := by
        by_contra h0
        have hzero : digitsValue front = 0 := by omega
        rw [hzero] at hfront
        exact hz' (by rw [← hfront]; rfl)
      calc ofNat (digitsValue (front ++ [c]))
          = Nat.toDigits 10 (digitsValue front) ++ Nat.toDigits 10 (c.toNat - '0'.toNat) := by
            rw [hv, ofNat, Nat.toDigits_append_toDigits (by decide) hpos hlt]
        _ = front ++ [c] := by rw [hlast]; exact congrArg (· ++ [c]) hfront

/-- A word is read from digits below the limit, with or without a plus sign before them. -/
theorem word?_eq_some_iff {t : Text} {k : Nat} :
    word? t = some k ↔ ∃ digits, (t = digits ∨ t = '+' :: digits) ∧ digits ≠ [] ∧
      digits.all Char.isDigit = true ∧ digitsValue digits = k ∧ k < wordLimit := by
  constructor
  · intro h
    unfold word? at h
    dsimp only at h
    split_ifs at h with hd
    have hk := Option.some.inj h
    refine ⟨_, ?_, hd.1, hd.2.1, hk, hk ▸ hd.2.2⟩
    cases ha : after? ['+'] t with
    | none => exact Or.inl rfl
    | some rest => exact Or.inr (after?_eq_some_iff.1 ha)
  · rintro ⟨digits, ht, hne, hd, rfl, hk⟩
    have hdigits : (after? ['+'] t).getD t = digits := by
      rcases ht with rfl | rfl
      · have hplus : after? ['+'] t = none := by
          cases t with
          | nil => rfl
          | cons c rest =>
            have hc : c ≠ '+' := by
              rintro rfl
              simp at hd
            simp [after?, Ne.symm hc]
        rw [hplus]
        rfl
      · rfl
    simp [word?, hdigits, hne, hd, hk]

/-- A word that is not zero is spelled by its numeral, unless a zero or a plus sign comes first. -/
theorem eq_ofNat_of_word? {t : Text} {k : Nat} (h : word? t = some k) (hz : t.head? ≠ some '0')
    (hp : t.head? ≠ some '+') : t = ofNat k := by
  obtain ⟨digits, ht, hne, hd, hk, -⟩ := word?_eq_some_iff.1 h
  rcases ht with rfl | rfl
  · rw [← hk, ofNat_digitsValue hne hd hz]
  · exact absurd rfl hp

theorem eq_of_word?_ofNat {n k : Nat} (h : word? (ofNat n) = some k) : n = k := by
  obtain ⟨digits, ht, -, -, hk, -⟩ := word?_eq_some_iff.1 h
  rcases ht with ht | ht
  · rw [← hk, ← ht, digitsValue_ofNat]
  · have hmem : '+' ∈ ofNat n := by simp [ht]
    exact absurd (isDigit_of_mem_ofNat hmem) (by decide)

end Text

namespace Step

theorem outputKey_injective {n m : Nat} (h : outputKey n = outputKey m) : n = m := by
  have hc : '_' :: Text.ofNat n = '_' :: Text.ofNat m := List.append_cancel_left h
  exact Text.ofNat_injective (List.cons.inj hc).2

theorem itemKey_injective {n m n' m' : Nat} (h : itemKey n m = itemKey n' m') :
    n = n' ∧ m = m' := by
  have hc : Text.ofNat n ++ '_' :: Text.ofNat m = Text.ofNat n' ++ '_' :: Text.ofNat m' := by
    simpa [itemKey, outputKey] using h
  -- No numeral has an underscore, so that the two sides are cut at the same one.
  obtain ⟨hn, -, hm⟩ := (List.append_cons_inj_of_notMem (Text.underscore_notMem_ofNat n)
    (Text.underscore_notMem_ofNat m)).1 hc
  exact ⟨Text.ofNat_injective hn, Text.ofNat_injective hm⟩

theorem isReference_stem_append (digits : Text) :
    isReference (outputStem ++ '_' :: digits) =
      (!digits.isEmpty && digits.all Text.isDecimalDigit) := by
  have ha : Text.after? (outputStem ++ ['_']) (outputStem ++ '_' :: digits) = some digits := by
    rw [Text.after?_eq_some_iff]
    simp
  rw [isReference, ha]

@[simp] theorem isReference_outputKey (n : Nat) : isReference (outputKey n) = true := by
  have hd : (Text.ofNat n).all Text.isDecimalDigit = true :=
    List.all_eq_true.2 fun _ h => Text.isDecimalDigit_of_isDigit (Text.isDigit_of_mem_ofNat h)
  rw [outputKey, isReference_stem_append, hd]
  simp [Text.ofNat_ne_nil]

@[simp] theorem isReference_itemKey (n m : Nat) : isReference (itemKey n m) = false := by
  have hu : Text.isDecimalDigit '_' = false := by decide
  have hk : itemKey n m = outputStem ++ '_' :: (Text.ofNat n ++ '_' :: Text.ofNat m) := by
    simp [itemKey, outputKey]
  rw [hk, isReference_stem_append]
  simp [hu]

theorem outputKey_ne_itemKey (k n m : Nat) : outputKey k ≠ itemKey n m := by
  intro h
  have hr := isReference_itemKey n m
  rw [← h, isReference_outputKey] at hr
  exact absurd hr (by decide)

end Step

end PromptChain
