/-! Texts as lists of characters: markers, lines, numerals, sizes and digits. -/
namespace PromptChain

/-- A text, read from left to right. -/
abbrev Text := List Char

namespace Text

/-- What follows `marker`, if the text starts with it. -/
def after? : (marker : Text) → Text → Option Text
  | [], t => some t
  | _ :: _, [] => none
  | m :: ms, c :: t => if m = c then after? ms t else none

theorem after?_eq_some_iff {marker t rest : Text} :
    after? marker t = some rest ↔ t = marker ++ rest := by
  induction marker generalizing t with
  | nil => simp [after?]
  | cons m ms ih =>
    cases t with
    | nil => simp [after?]
    | cons c t =>
      by_cases h : m = c
      · simp [after?, h, ih]
      · simp [after?, h, Ne.symm h]

@[simp] theorem after?_append (marker rest : Text) : after? marker (marker ++ rest) = some rest :=
  after?_eq_some_iff.2 rfl

theorem length_of_after? {marker t rest : Text} (h : after? marker t = some rest) :
    t.length = marker.length + rest.length := by
  rw [after?_eq_some_iff.1 h, List.length_append]

def hasNul (t : Text) : Bool :=
  t.contains (Char.ofNat 0)

/-- Whether `marker` stands somewhere in the text. -/
def has (marker : Text) : Text → Bool
  | [] => marker.isEmpty
  | c :: t => (after? marker (c :: t)).isSome || has marker t

theorem has_eq_true_iff {marker t : Text} : marker.has t = true ↔ marker <:+: t := by
  induction t with
  | nil => rw [has, List.isEmpty_iff, List.infix_nil]
  | cons c t ih =>
    rw [has, Bool.or_eq_true, ih, List.infix_cons_iff, Option.isSome_iff_exists]
    apply or_congr_left
    constructor
    · rintro ⟨rest, hrest⟩
      exact ⟨rest, (after?_eq_some_iff.1 hrest).symm⟩
    · rintro ⟨rest, hrest⟩
      exact ⟨rest, after?_eq_some_iff.2 hrest.symm⟩

theorem has_eq_false_iff {marker t : Text} : marker.has t = false ↔ ¬marker <:+: t := by
  rw [← has_eq_true_iff, Bool.not_eq_true]

theorem has_of_after? {marker t rest : Text} (h : after? marker t = some rest) :
    has marker t = true :=
  has_eq_true_iff.2 ⟨[], rest, (after?_eq_some_iff.1 h).symm⟩

theorem has_eq_false_of_notMem {marker t : Text} {c : Char} (hc : c ∈ marker) (ht : c ∉ t) :
    has marker t = false :=
  has_eq_false_iff.2 fun h => ht (h.subset hc)

theorem has_append_of_has {marker : Text} (front : Text) {t : Text} (h : has marker t = true) :
    has marker (front ++ t) = true :=
  has_eq_true_iff.2 ((has_eq_true_iff.1 h).trans (List.suffix_append front t).isInfix)

/-- A text that holds a marker holds what stands in the marker. -/
theorem has_trans {part marker t : Text} (h : has part marker = true) (h' : has marker t = true) :
    has part t = true :=
  has_eq_true_iff.2 ((has_eq_true_iff.1 h).trans (has_eq_true_iff.1 h'))

def push (c : Char) : List Text → List Text
  | [] => [[c]]
  | piece :: pieces => (c :: piece) :: pieces

/-- The lines of a text. A line ends at a line feed, which takes one carriage return before it
along; nothing after the last line feed is no line. -/
def lines : Text → List Text
  | [] => []
  | '\n' :: t => [] :: lines t
  | '\r' :: '\n' :: t => [] :: lines t
  | c :: t => push c (lines t)

def ofNat (n : Nat) : Text :=
  Nat.toDigits 10 n

def digitsValue (digits : Text) : Nat :=
  Nat.ofDigitChars 10 digits 0

@[simp] theorem digitsValue_ofNat (n : Nat) : digitsValue (ofNat n) = n :=
  Nat.ofDigitChars_toDigits (by decide) (by decide)

theorem ofNat_injective {m n : Nat} (h : ofNat m = ofNat n) : m = n := by
  rw [← digitsValue_ofNat m, h, digitsValue_ofNat]

theorem isDigit_of_mem_ofNat {n : Nat} {c : Char} (h : c ∈ ofNat n) : c.isDigit = true :=
  Nat.isDigit_of_mem_toDigits (by decide) (by decide) h

/-- The decimal numeral of an integer, with a minus sign if it is negative. -/
def ofInt : Int → Text
  | .ofNat n => ofNat n
  | .negSucc n => '-' :: ofNat (n + 1)

def wordLimit : Nat :=
  18446744073709551616

/-- The word that a numeral denotes: decimal digits after at most one plus sign, below 2^64. -/
def word? (t : Text) : Option Nat :=
  let digits := (after? ['+'] t).getD t
  if digits ≠ [] ∧ digits.all Char.isDigit ∧ digitsValue digits < wordLimit then
    some (digitsValue digits)
  else
    none

/-- A numeral of at least `width` digits, filled with zeros from the left. -/
def padded (width n : Nat) : Text :=
  List.replicate (width - (ofNat n).length) '0' ++ ofNat n

def byteLength : Text → Nat
  | [] => 0
  | c :: rest => c.utf8Size + byteLength rest

@[simp] theorem byteLength_append (s t : Text) :
    byteLength (s ++ t) = byteLength s + byteLength t := by
  induction s with
  | nil => simp [byteLength]
  | cons c rest ih => simp [byteLength, ih, Nat.add_assoc]

/-- A text in double quotes, as messages show names. -/
def quoted (t : Text) : Text :=
  '"' :: t ++ ['"']

/-- Whether a code point lies in one of the ranges, whose ends belong to them. -/
def inRanges (ranges : List (Nat × Nat)) (n : Nat) : Bool :=
  ranges.any fun (low, high) => low ≤ n && n ≤ high

/-- The code points of general category `Nd`. -/
def decimalDigits : List (Nat × Nat) :=
  [(0x30, 0x39), (0x660, 0x669), (0x6F0, 0x6F9), (0x7C0, 0x7C9), (0x966, 0x96F), (0x9E6, 0x9EF),
   (0xA66, 0xA6F), (0xAE6, 0xAEF), (0xB66, 0xB6F), (0xBE6, 0xBEF), (0xC66, 0xC6F), (0xCE6, 0xCEF),
   (0xD66, 0xD6F), (0xDE6, 0xDEF), (0xE50, 0xE59), (0xED0, 0xED9), (0xF20, 0xF29),
   (0x1040, 0x1049), (0x1090, 0x1099), (0x17E0, 0x17E9), (0x1810, 0x1819), (0x1946, 0x194F),
   (0x19D0, 0x19D9), (0x1A80, 0x1A89), (0x1A90, 0x1A99), (0x1B50, 0x1B59), (0x1BB0, 0x1BB9),
   (0x1C40, 0x1C49), (0x1C50, 0x1C59), (0xA620, 0xA629), (0xA8D0, 0xA8D9), (0xA900, 0xA909),
   (0xA9D0, 0xA9D9), (0xA9F0, 0xA9F9), (0xAA50, 0xAA59), (0xABF0, 0xABF9), (0xFF10, 0xFF19),
   (0x104A0, 0x104A9), (0x10D30, 0x10D39), (0x10D40, 0x10D49), (0x11066, 0x1106F),
   (0x110F0, 0x110F9), (0x11136, 0x1113F), (0x111D0, 0x111D9), (0x112F0, 0x112F9),
   (0x11450, 0x11459), (0x114D0, 0x114D9), (0x11650, 0x11659), (0x116C0, 0x116C9),
   (0x116D0, 0x116E3), (0x11730, 0x11739), (0x118E0, 0x118E9), (0x11950, 0x11959),
   (0x11BF0, 0x11BF9), (0x11C50, 0x11C59), (0x11D50, 0x11D59), (0x11DA0, 0x11DA9),
   (0x11F50, 0x11F59), (0x16130, 0x16139), (0x16A60, 0x16A69), (0x16AC0, 0x16AC9),
   (0x16B50, 0x16B59), (0x16D70, 0x16D79), (0x1CCF0, 0x1CCF9), (0x1D7CE, 0x1D7FF),
   (0x1E140, 0x1E149), (0x1E2F0, 0x1E2F9), (0x1E4F0, 0x1E4F9), (0x1E5F1, 0x1E5FA),
   (0x1E950, 0x1E959), (0x1FBF0, 0x1FBF9)]

def isDecimalDigit (c : Char) : Bool :=
  inRanges decimalDigits c.toNat

end Text

end PromptChain
