import Mathlib.Tactic.SplitIfs
import PromptChain.Text.Utf8

/-! A text is read back from its bytes, and the bytes of a character are found where it stands. -/
namespace PromptChain.Utf8

theorem continue?_cons {count code n : Nat} (hn : n < 64) (bytes : Bytes) :
    continue? (count + 1) code (UInt8.ofNat (n + 128) :: bytes) =
      continue? count (code * 64 + n) bytes := by
  have hbyte : (UInt8.ofNat (n + 128)).toNat = n + 128 :=
    UInt8.toNat_ofNat_of_lt' (show n + 128 < 256 by omega)
  rw [continue?, hbyte, if_pos (by omega), Nat.add_sub_cancel]

theorem lead?_two {n : Nat} (h : n < 32) :
    lead? (UInt8.ofNat (n + 192)).toNat = some (1, n, 0x80) := by
  rw [UInt8.toNat_ofNat_of_lt' (show n + 192 < 256 by omega), lead?, if_neg (by omega),
    if_neg (by omega), if_pos (by omega), Nat.add_sub_cancel]

theorem lead?_three {n : Nat} (h : n < 16) :
    lead? (UInt8.ofNat (n + 224)).toNat = some (2, n, 0x800) := by
  rw [UInt8.toNat_ofNat_of_lt' (show n + 224 < 256 by omega), lead?, if_neg (by omega),
    if_neg (by omega), if_neg (by omega), if_pos (by omega), Nat.add_sub_cancel]

theorem lead?_four {n : Nat} (h : n < 8) :
    lead? (UInt8.ofNat (n + 240)).toNat = some (3, n, 0x10000) := by
  rw [UInt8.toNat_ofNat_of_lt' (show n + 240 < 256 by omega), lead?, if_neg (by omega),
    if_neg (by omega), if_neg (by omega), if_neg (by omega), if_pos (by omega), Nat.add_sub_cancel]

theorem next?_of_lead? {b : UInt8} {bytes rest : Bytes} {count start least code : Nat}
    (hlead : lead? b.toNat = some (count, start, least))
    (hcontinue : continue? count start bytes = some (code, rest)) {c : Char} (hc : c.toNat = code)
    (hleast : least ≤ code) : next? (b :: bytes) = some (c, rest) := by
  have hvalid : code.isValidChar := hc ▸ c.valid
  rw [next?, hlead]
  change Option.bind (continue? count start bytes) _ = _
  rw [hcontinue]
  change (if code.isValidChar ∧ least ≤ code then some (Char.ofNat code, rest) else none) = _
  rw [if_pos ⟨hvalid, hleast⟩, ← hc, Char.ofNat_toNat]

/-- The bytes of a character, by the range of its code point. -/
theorem encodeChar_eq (c : Char) :
    String.utf8EncodeChar c = if c.toNat ≤ 127 then [UInt8.ofNat c.toNat]
      else if c.toNat ≤ 2047 then
        [UInt8.ofNat (c.toNat / 64 % 32 + 192), UInt8.ofNat (c.toNat % 64 + 128)]
      else if c.toNat ≤ 65535 then
        [UInt8.ofNat (c.toNat / 4096 % 16 + 224), UInt8.ofNat (c.toNat / 64 % 64 + 128),
          UInt8.ofNat (c.toNat % 64 + 128)]
      else
        [UInt8.ofNat (c.toNat / 262144 % 8 + 240), UInt8.ofNat (c.toNat / 4096 % 64 + 128),
          UInt8.ofNat (c.toNat / 64 % 64 + 128), UInt8.ofNat (c.toNat % 64 + 128)] :=
  rfl

/-- The bytes of a character are read as the character, whatever follows them. -/
theorem next?_encodeChar (c : Char) (rest : Bytes) :
    next? (String.utf8EncodeChar c ++ rest) = some (c, rest) := by
  have hmax : c.toNat < 0x110000 := by
    rcases c.valid with h | h
    · change c.toNat < 0xd800 at h
      omega
    · exact h.2
  have hdigit : ∀ n, n % 64 < 64 := fun n => Nat.mod_lt n (by omega)
  rw [encodeChar_eq]
  split_ifs with hone htwo hthree
  · have hlead : lead? (UInt8.ofNat c.toNat).toNat = some (0, c.toNat, 0) := by
      rw [UInt8.toNat_ofNat_of_lt' (show c.toNat < 256 by omega), lead?, if_pos (by omega)]
    exact next?_of_lead? hlead rfl rfl (Nat.zero_le _)
  · have hcode : c.toNat / 64 % 32 * 64 + c.toNat % 64 = c.toNat := by omega
    have hcontinue : continue? 1 (c.toNat / 64 % 32) (UInt8.ofNat (c.toNat % 64 + 128) :: rest) =
        some (c.toNat, rest) := by
      rw [continue?_cons (hdigit _), continue?, hcode]
    exact next?_of_lead? (lead?_two (Nat.mod_lt _ (by omega))) hcontinue rfl (by omega)
  · have hcode : (c.toNat / 4096 % 16 * 64 + c.toNat / 64 % 64) * 64 + c.toNat % 64 = c.toNat := by
      omega
    have hcontinue : continue? 2 (c.toNat / 4096 % 16) (UInt8.ofNat (c.toNat / 64 % 64 + 128) ::
        UInt8.ofNat (c.toNat % 64 + 128) :: rest) = some (c.toNat, rest) := by
      rw [continue?_cons (hdigit _), continue?_cons (hdigit _), continue?, hcode]
    exact next?_of_lead? (lead?_three (Nat.mod_lt _ (by omega))) hcontinue rfl (by omega)
  · have hcode : ((c.toNat / 262144 % 8 * 64 + c.toNat / 4096 % 64) * 64 + c.toNat / 64 % 64) * 64 +
        c.toNat % 64 = c.toNat := by
      omega
    have hcontinue : continue? 3 (c.toNat / 262144 % 8) (UInt8.ofNat (c.toNat / 4096 % 64 + 128) ::
        UInt8.ofNat (c.toNat / 64 % 64 + 128) :: UInt8.ofNat (c.toNat % 64 + 128) :: rest) =
          some (c.toNat, rest) := by
      rw [continue?_cons (hdigit _), continue?_cons (hdigit _), continue?_cons (hdigit _), continue?,
        hcode]
    exact next?_of_lead? (lead?_four (Nat.mod_lt _ (by omega))) hcontinue rfl (by omega)

theorem symbols_encode (t : Text) : symbols (encode t) = t.map some := by
  induction t with
  | nil =>
    rw [symbols]
    rfl
  | cons c t ih =>
    have hnext : next? (encode (c :: t)) = some (c, encode t) := next?_encodeChar c (encode t)
    rw [symbols]
    split
    · next d rest h =>
      rw [hnext] at h
      cases h
      rw [ih, List.map_cons]
    · next h =>
      rw [hnext] at h
      cases h

theorem decode?_encode (t : Text) : decode? (encode t) = some t := by
  rw [decode?, symbols_encode]
  induction t with
  | nil => rfl
  | cons c t ih =>
    rw [List.map_cons, List.mapM_cons, ih]
    rfl

theorem encode_append (s t : Text) : encode (s ++ t) = encode s ++ encode t :=
  List.flatMap_append

theorem encode_cons (c : Char) (t : Text) : encode (c :: t) = String.utf8EncodeChar c ++ encode t :=
  List.flatMap_cons

theorem length_encode (t : Text) : (encode t).length = t.byteLength := by
  induction t with
  | nil => rfl
  | cons c t ih =>
    rw [encode_cons, List.length_append, String.length_utf8EncodeChar, ih, Text.byteLength]

/-- The byte of an ASCII character stands in no other character. -/
theorem notMem_encodeChar {a c : Char} (ha : a.toNat < 128) (h : c ≠ a) :
    UInt8.ofNat a.toNat ∉ String.utf8EncodeChar c := by
  have hbyte : ∀ n, n < 256 → n ≠ a.toNat → UInt8.ofNat a.toNat ≠ UInt8.ofNat n := by
    intro n hn hne heq
    apply hne
    rw [← UInt8.toNat_ofNat_of_lt' hn, ← heq,
      UInt8.toNat_ofNat_of_lt' (show a.toNat < 256 by omega)]
  have hc : c.toNat ≠ a.toNat := by
    intro heq
    apply h
    rw [← Char.ofNat_toNat c, heq, Char.ofNat_toNat]
  have hcontinue : ∀ n, UInt8.ofNat a.toNat ≠ UInt8.ofNat (n % 64 + 128) :=
    fun n => hbyte _ (by omega) (by omega)
  rw [encodeChar_eq]
  split_ifs <;> simp only [List.mem_cons, List.not_mem_nil, or_false, not_or]
  · exact hbyte _ (by omega) hc
  · exact ⟨hbyte _ (by omega) (by omega), hcontinue _⟩
  · exact ⟨hbyte _ (by omega) (by omega), hcontinue _, hcontinue _⟩
  · exact ⟨hbyte _ (by omega) (by omega), hcontinue _, hcontinue _, hcontinue _⟩

theorem encodeChar_ascii {a : Char} (ha : a.toNat < 128) :
    String.utf8EncodeChar a = [UInt8.ofNat a.toNat] := by
  rw [encodeChar_eq, if_pos (by omega)]

/-- Bytes that start with those of a text are the bytes of a text that starts with it. -/
theorem exists_of_encode_append {s t : Text} {q : Bytes} (h : encode t = encode s ++ q) :
    ∃ back, t = s ++ back ∧ encode back = q := by
  induction s generalizing t with
  | nil => exact ⟨t, rfl, h⟩
  | cons c s ih =>
    have hnext : next? (encode t) = some (c, encode s ++ q) := by
      rw [h, encode_cons, List.append_assoc, next?_encodeChar]
    cases t with
    | nil => cases hnext
    | cons d t =>
      rw [encode_cons, next?_encodeChar, Option.some.injEq, Prod.mk.injEq] at hnext
      obtain ⟨back, ht, hback⟩ := ih hnext.2
      refine ⟨back, ?_, hback⟩
      rw [hnext.1, ht]
      rfl

/-- The byte of an ASCII character, anywhere in the bytes of a text, is that character. -/
theorem exists_of_encode_ascii {a : Char} (ha : a.toNat < 128) {t : Text} {p q : Bytes}
    (h : encode t = p ++ UInt8.ofNat a.toNat :: q) :
    ∃ front back, t = front ++ a :: back ∧ encode front = p ∧ encode back = q := by
  induction t generalizing p with
  | nil => exact absurd h.symm (List.append_ne_nil_of_right_ne_nil p (List.cons_ne_nil _ _))
  | cons c t ih =>
    rw [encode_cons] at h
    by_cases hc : c = a
    · rw [hc, encodeChar_ascii ha] at h
      cases p with
      | nil =>
        have hq : encode t = q := (List.cons.inj h).2
        exact ⟨[], t, by rw [hc]; rfl, rfl, hq⟩
      | cons b p =>
        obtain ⟨hb, hrest⟩ := List.cons.inj h
        obtain ⟨front, back, ht, hfront, hback⟩ := ih hrest
        refine ⟨a :: front, back, by rw [hc, ht]; rfl, ?_, hback⟩
        rw [encode_cons, encodeChar_ascii ha, hfront, hb]
        rfl
    · -- The byte is none of those of another character, so that it stands after them.
      have hoff := notMem_encodeChar ha hc
      obtain ⟨r, hp, hrest⟩ : ∃ r, p = String.utf8EncodeChar c ++ r ∧
          encode t = r ++ UInt8.ofNat a.toNat :: q := by
        rcases List.append_eq_append_iff.1 h with hafter | ⟨r, hbytes, hrest⟩
        · exact hafter
        · cases r with
          | nil => exact ⟨[], by rw [hbytes, List.append_nil, List.append_nil], hrest.symm⟩
          | cons b r =>
            rw [(List.cons.inj hrest).1, hbytes] at hoff
            exact absurd (List.mem_append_right p List.mem_cons_self) hoff
      obtain ⟨front, back, ht, hfront, hback⟩ := ih hrest
      refine ⟨c :: front, back, by rw [ht]; rfl, ?_, hback⟩
      rw [encode_cons, hfront, hp]

end PromptChain.Utf8
