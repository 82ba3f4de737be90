import PromptChain.Text.Basic

/-! Texts as bytes, in UTF-8. -/
namespace PromptChain

abbrev Bytes := List UInt8

namespace Utf8

def encode (t : Text) : Bytes :=
  t.flatMap String.utf8EncodeChar

/-- Takes bytes that continue a character into its code point. -/
def continue? : (count : Nat) → (code : Nat) → Bytes → Option (Nat × Bytes)
  | 0, code, bytes => some (code, bytes)
  | count + 1, code, b :: bytes =>
    if 0x80 ≤ b.toNat ∧ b.toNat < 0xC0 then continue? count (code * 64 + (b.toNat - 0x80)) bytes
    else none
  | _ + 1, _, [] => none

/-- How many bytes continue a character that starts with the given byte, what the byte adds to its
code point, and the least code point that is written so. -/
def lead? (b : Nat) : Option (Nat × Nat × Nat) :=
  if b < 0x80 then some (0, b, 0)
  else if b < 0xC0 then none
  else if b < 0xE0 then some (1, b - 0xC0, 0x80)
  else if b < 0xF0 then some (2, b - 0xE0, 0x800)
  else if b < 0xF8 then some (3, b - 0xF0, 0x10000)
  else none

/-- The character that bytes start with, and what follows it. -/
def next? : Bytes → Option (Char × Bytes)
  | [] => none
  | b :: bytes => do
    let (count, start, least) ← lead? b.toNat
    let (code, rest) ← continue? count start bytes
    -- Surrogates, and code points in more bytes than they need, are no characters.
    if code.isValidChar ∧ least ≤ code then some (Char.ofNat code, rest) else none

theorem length_of_continue? {count code n : Nat} {bytes rest : Bytes}
    (h : continue? count code bytes = some (n, rest)) : rest.length ≤ bytes.length := by
  induction count generalizing code bytes with
  | zero =>
    simp only [continue?, Option.some.injEq, Prod.mk.injEq] at h
    exact Nat.le_of_eq (congrArg List.length h.2.symm)
  | succ count ih =>
    cases bytes with
    | nil => simp [continue?] at h
    | cons b bytes =>
      simp only [continue?] at h
      split at h
      · have := ih h
        simp only [List.length_cons]
        omega
      · cases h

theorem length_of_next? {bytes rest : Bytes} {c : Char} (h : next? bytes = some (c, rest)) :
    rest.length < bytes.length := by
  cases bytes with
  | nil => simp [next?] at h
  | cons b bytes =>
    simp only [next?, Option.bind_eq_bind] at h
    obtain ⟨⟨count, start, least⟩, -, h⟩ := Option.bind_eq_some_iff.1 h
    obtain ⟨⟨code, r⟩, hc, h⟩ := Option.bind_eq_some_iff.1 h
    simp only at h
    split at h
    · simp only [Option.some.injEq, Prod.mk.injEq] at h
      obtain ⟨-, rfl⟩ := h
      have := length_of_continue? hc
      simp only [List.length_cons]
      omega
    · cases h

/-- The characters that bytes hold, with none in the place of each byte that belongs to no
character. -/
def symbols (bytes : Bytes) : List (Option Char) :=
  match _h : next? bytes with
  | some (c, rest) => some c :: symbols rest
  | none =>
    match bytes with
    | [] => []
    | _ :: rest => none :: symbols rest
termination_by bytes.length
decreasing_by
  · exact length_of_next? _h
  · simp

def decode? (bytes : Bytes) : Option Text :=
  (symbols bytes).mapM id

end Utf8

end PromptChain
