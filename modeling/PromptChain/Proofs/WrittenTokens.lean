import Mathlib.Algebra.Order.Ring.Int
import PromptChain.Proofs.JsonReading
import PromptChain.Proofs.WrittenJson

/-! Written strings and integers are read back as they were. -/
namespace PromptChain

namespace Text

theorem head?_ofNat {n : Nat} (h : (ofNat n).head? = some '0') : n = 0 := by
  induction n using Nat.strongRecOn with
  | ind n ih =>
    by_cases hn : n < 10
    · have hdigit : ∀ d < 10, d.digitChar = '0' → d = 0 := by decide
      rw [ofNat, Nat.toDigits_of_lt_base hn] at h
      exact hdigit n hn (Option.some.inj h)
    · rw [ofNat, Nat.toDigits_of_base_le (by decide) (by omega),
        List.head?_append_of_ne_nil _ Nat.toDigits_ne_nil] at h
      have := ih (n / 10) (by omega) h
      omega

/-- A numeral of two digits or more does not start with a zero. -/
theorem ofNat_ne_zero_cons (n : Nat) (d : Char) (ds : Text) : ofNat n ≠ '0' :: d :: ds := by
  intro h
  have hzero : n = 0 := head?_ofNat (by rw [h]; rfl)
  rw [hzero] at h
  cases h

end Text

namespace Json

section Strings

def partOf (c : Char) : StringPart :=
  if ['"', '\\', '\x08', '\x0c', '\n', '\r', '\t'].contains c then .escaped c
  else if c.toNat < 0x20 then .unit c.toNat
  else .plain (some c)

theorem string?_escaped {e c : Char} (h : Raw.escape? e = some c) (rest : List Symbol) :
    Raw.string? (some '\\' :: some e :: rest) =
      (Raw.string? rest).map fun (parts, after) => (.escaped c :: parts, after) := by
  rw [Raw.string?]
  · rw [h]
    cases Raw.string? rest <;> rfl
  · rintro _ _ _ _ _ - rfl
    cases h

theorem string?_plain {c : Char} (hquote : c ≠ '"') (hslash : c ≠ '\\') (hc : ¬c.toNat < 0x20)
    (rest : List Symbol) : Raw.string? (some c :: rest) =
      (Raw.string? rest).map fun (parts, after) => (.plain (some c) :: parts, after) := by
  rw [Raw.string?]
  · rw [if_neg hc]
    cases Raw.string? rest <;> rfl
  · exact hquote
  · exact fun _ _ _ _ _ _ => hslash
  · exact fun _ _ _ => hslash
  · exact hslash

theorem string?_unit {n : Nat} (hn : n < 0x20) (rest : List Symbol) :
    Raw.string? (some '\\' :: some 'u' :: some '0' :: some '0' :: some (hexDigit (n / 16)) ::
      some (hexDigit n) :: rest) =
        (Raw.string? rest).map fun (parts, after) => (.unit n :: parts, after) := by
  have hunit : ∀ n < 0x20, Raw.unit? '0' '0' (hexDigit (n / 16)) (hexDigit n) = some n := by decide
  rw [Raw.string?, hunit n hn]
  cases Raw.string? rest <;> rfl

theorem string?_escape (c : Char) (rest : List Symbol) :
    Raw.string? ((escape c).map some ++ rest) =
      (Raw.string? rest).map fun (parts, after) => (partOf c :: parts, after) := by
  unfold escape
  split_ifs with h₁ h₂ h₃ h₄ h₅ h₆ h₇ h₈
  -- The seven characters that have a letter of their own.
  iterate 7
    · subst_vars
      exact string?_escaped rfl rest
  · have hpart : partOf c = .unit c.toNat := by simp [partOf, h₁, h₂, h₃, h₄, h₅, h₆, h₇, h₈]
    rw [hpart]
    exact string?_unit h₈ rest
  · have hpart : partOf c = .plain (some c) := by simp [partOf, h₁, h₂, h₃, h₄, h₅, h₆, h₇, h₈]
    rw [hpart]
    exact string?_plain h₁ h₂ h₈ rest

/-- A written text is read up to its closing quote. -/
theorem string?_quote (t : Text) (rest : List Symbol) :
    Raw.string? ((t.flatMap escape).map some ++ some '"' :: rest) = some (t.map partOf, rest) := by
  induction t with
  | nil => rfl
  | cons c t ih =>
    rw [List.flatMap_cons, List.map_append, List.append_assoc, string?_escape, ih]
    rfl

theorem decode?_unit {n : Nat} (hn : n < 0x20) (parts : List StringPart) :
    decode? (.unit n :: parts) = (decode? parts).map (Char.ofNat n :: ·) := by
  have hhigh : isHighUnit n = false := by
    simp only [isHighUnit, Bool.and_eq_false_iff, decide_eq_false_iff_not]
    omega
  have hlow : isLowUnit n = false := by
    simp only [isLowUnit, Bool.and_eq_false_iff, decide_eq_false_iff_not]
    omega
  cases parts with
  | nil => simp [decode?, hhigh, hlow]
  | cons part parts => cases part <;> simp [decode?, hhigh, hlow]

theorem decode?_partOf (t : Text) : decode? (t.map partOf) = some t := by
  induction t with
  | nil => rfl
  | cons c t ih =>
    rw [List.map_cons, partOf]
    split_ifs with hescaped hcontrol
    · rw [decode?, ih]
      rfl
    · rw [decode?_unit hcontrol, ih, Char.ofNat_toNat]
      rfl
    · rw [decode?, ih]
      rfl

end Strings

section Integers

/-- A symbol that does not go on a number before it. -/
def endsNumber : Option Symbol → Bool
  | some (some c) => !(c.isDigit || c == '.' || c == 'e' || c == 'E')
  | _ => true

theorem unsigned?_ofNat (negative : Bool) (n : Nat) {rest : List Symbol}
    (h : endsNumber rest.head? = true) :
    Raw.unsigned? negative ((Text.ofNat n).map some ++ rest) =
      some (⟨negative, Text.ofNat n, [], none⟩, rest) := by
  have hends : Raw.EndsDigits rest.head? := by
    intro c hc
    rw [hc] at h
    simp only [endsNumber, Bool.not_eq_true', Bool.or_eq_false_iff] at h
    exact h.1.1.1
  have hfraction : Raw.fraction? rest = some ([], rest) := by
    unfold Raw.fraction?
    split
    · cases h
    · rfl
  have hexponent : Raw.exponent? rest = some (none, rest) := by
    unfold Raw.exponent?
    split
    · next c rest =>
      rw [if_neg]
      rintro (rfl | rfl) <;> cases h
    · rfl
  unfold Raw.unsigned?
  rw [Raw.digits_append (fun _ => Text.isDigit_of_mem_ofNat) hends]
  dsimp only
  split
  · next hnil => exact absurd hnil (Text.ofNat_ne_nil n)
  · next hzero => exact absurd hzero (Text.ofNat_ne_zero_cons n _ _)
  · rw [hfraction]
    change Option.bind (Raw.exponent? rest) _ = _
    rw [hexponent]
    rfl

theorem le_ofDigitChars (digits : Text) (start : Nat) :
    start ≤ Nat.ofDigitChars 10 digits start := by
  induction digits generalizing start with
  | nil => exact Nat.le_refl start
  | cons d digits ih =>
    have := ih (10 * start + (d.toNat - '0'.toNat))
    rw [Nat.ofDigitChars_cons]
    omega

/-- All digits of a number below the limit are taken. -/
theorem take_eq (digits : Text) (start : Nat)
    (h : Nat.ofDigitChars 10 digits start < Text.wordLimit) :
    take start digits = (Nat.ofDigitChars 10 digits start, digits.length) := by
  induction digits generalizing start with
  | nil => rfl
  | cons d digits ih =>
    rw [Nat.ofDigitChars_cons, Nat.mul_comm] at h
    have hle := le_ofDigitChars digits (start * 10 + (d.toNat - '0'.toNat))
    rw [take]
    dsimp only
    rw [if_pos (Nat.lt_of_le_of_lt hle h), ih _ h, Nat.ofDigitChars_cons, Nat.mul_comm 10,
      List.length_cons]

theorem take_ofNat {n : Nat} (h : n < Text.wordLimit) :
    take 0 (Text.ofNat n) = (n, (Text.ofNat n).length) := by
  have hvalue : Nat.ofDigitChars 10 (Text.ofNat n) 0 = n := Text.digitsValue_ofNat n
  have htake := take_eq (Text.ofNat n) 0
  rw [hvalue] at htake
  exact htake h

theorem Numeral.value?_ofNat {n : Nat} (h : n < Text.wordLimit) :
    Numeral.value? ⟨false, Text.ofNat n, [], none⟩ = some (.integer n) := by
  unfold Numeral.value?
  simp [take_ofNat h]

theorem Numeral.value?_negative {n : Nat} (hpos : 0 < n) (h : n ≤ 2 ^ 63) :
    Numeral.value? ⟨true, Text.ofNat n, [], none⟩ = some (.integer (-(n : Int))) := by
  have hlt : n < Text.wordLimit := by
    change n < 18446744073709551616
    omega
  have hne : n ≠ 0 := by omega
  have hle : n ≤ 9223372036854775808 := h
  unfold Numeral.value?
  simp [take_ofNat hlt, hne, hle]

end Integers

end Json

end PromptChain
