import PromptChain.Json.Write
import PromptChain.Proofs.CanonicalJson
import PromptChain.Proofs.OutputNames

/-! What JSON values look like when they are written on one line: where a number ends, where an item
ends, and that there is no line feed. -/
namespace PromptChain

namespace Text

theorem ne_minus_of_mem_ofNat {n : Nat} {c : Char} (h : c ∈ ofNat n) : c ≠ '-' := by
  rintro rfl
  exact absurd (isDigit_of_mem_ofNat h) (by decide)

theorem ofInt_injective {m n : Int} (h : ofInt m = ofInt n) : m = n := by
  cases m with
  | ofNat m =>
    cases n with
    | ofNat n => exact congrArg Int.ofNat (ofNat_injective h)
    | negSucc n =>
      have hmem : '-' ∈ ofNat m := by
        rw [show ofNat m = '-' :: ofNat (n + 1) from h]
        exact List.mem_cons_self
      exact absurd rfl (ne_minus_of_mem_ofNat hmem)
  | negSucc m =>
    cases n with
    | ofNat n =>
      have hmem : '-' ∈ ofNat n := by
        rw [← show '-' :: ofNat (m + 1) = ofNat n from h]
        exact List.mem_cons_self
      exact absurd rfl (ne_minus_of_mem_ofNat hmem)
    | negSucc n =>
      have hnumeral : ofNat (m + 1) = ofNat (n + 1) := (List.cons.inj h).2
      have := ofNat_injective hnumeral
      congr 1
      omega

end Text

namespace Json

section Numbers

def isNumeric (c : Char) : Bool :=
  c.isDigit || c == '-' || c == '+' || c == '.' || c == 'e'

theorem isNumeric_of_mem_ofNat {n : Nat} {c : Char} (h : c ∈ Text.ofNat n) :
    isNumeric c = true := by
  simp [isNumeric, Text.isDigit_of_mem_ofNat h]

theorem isDigit_of_mem_ofInt {n : Int} {c : Char} (h : c ∈ Text.ofInt n) :
    c = '-' ∨ c.isDigit = true := by
  cases n with
  | ofNat n => exact .inr (Text.isDigit_of_mem_ofNat h)
  | negSucc n =>
    rcases List.mem_cons.1 h with hc | hc
    · exact .inl hc
    · exact .inr (Text.isDigit_of_mem_ofNat hc)

theorem isNumeric_of_mem_ofInt {n : Int} {c : Char} (h : c ∈ Text.ofInt n) :
    isNumeric c = true := by
  rcases isDigit_of_mem_ofInt h with hc | hc
  · rw [hc]
    rfl
  · simp [isNumeric, hc]

theorem isNumeric_of_mem_plainDigits {digits : Text} {top : Int} {c : Char}
    (hd : ∀ d ∈ digits, isNumeric d = true) (h : c ∈ plainDigits digits top) :
    isNumeric c = true := by
  have hzero : ∀ {n : Nat}, c ∈ List.replicate n '0' → isNumeric c = true := by
    intro n hc
    rw [List.eq_of_mem_replicate hc]
    rfl
  unfold plainDigits at h
  by_cases htop : top < 0
  · rw [if_pos htop] at h
    rcases List.mem_append.1 h with h | h
    · rcases List.mem_append.1 h with h | h
      · have hpoint : "0.".toList.all isNumeric = true := by decide
        exact List.all_eq_true.1 hpoint c h
      · exact hzero h
    · exact hd c h
  · rw [if_neg htop] at h
    rcases List.mem_append.1 h with h | h
    · rcases List.mem_append.1 h with h | h
      · exact hd c (List.mem_of_mem_take h)
      · exact hzero h
    · rcases List.mem_cons.1 h with h | h
      · rw [h]
        rfl
      · split_ifs at h
        · exact hzero (n := 1) h
        · exact hd c (List.mem_of_mem_drop h)

theorem isNumeric_of_mem_scientificDigits {digits : Text} {top : Int} {c : Char}
    (hd : ∀ d ∈ digits, isNumeric d = true) (h : c ∈ scientificDigits digits top) :
    isNumeric c = true := by
  unfold scientificDigits at h
  rcases List.mem_append.1 h with h | h
  · split at h
    · simp only [List.mem_cons, forall_eq_or_imp] at h hd
      rcases h with h | h | h | h
      · rw [h]
        exact hd.1
      · rw [h]
        rfl
      · rw [h]
        exact hd.2.1
      · exact hd.2.2 c h
    · exact hd c h
  · rcases List.mem_cons.1 h with h | h
    · rw [h]
      rfl
    · rcases List.mem_cons.1 h with h | h
      · rw [h]
        split_ifs <;> rfl
      · exact isNumeric_of_mem_ofNat h

/-- Digits in one of two forms, with or without a sign. -/
theorem exists_writeFloat (x : Binary64) :
    ∃ top magnitude, (magnitude = plainDigits (Text.ofNat x.shortest.digits) top ∨
        magnitude = scientificDigits (Text.ofNat x.shortest.digits) top) ∧
      (writeFloat x = magnitude ∨ writeFloat x = '-' :: magnitude) := by
  let top := x.shortest.exponent + (Text.ofNat x.shortest.digits).length - 1
  refine ⟨top, _, ite_eq_or_eq (positional.least ≤ top ∧ top ≤ positional.greatest) _ _, ?_⟩
  unfold writeFloat
  cases x.negative with
  | false => exact .inl rfl
  | true => exact .inr rfl

theorem isNumeric_of_mem_writeFloat {x : Binary64} {c : Char} (h : c ∈ writeFloat x) :
    isNumeric c = true := by
  obtain ⟨top, magnitude, hform, hsign⟩ := exists_writeFloat x
  have hmagnitude : c ∈ magnitude → isNumeric c = true := by
    intro hc
    rcases hform with hform | hform
    · rw [hform] at hc
      exact isNumeric_of_mem_plainDigits (fun _ => isNumeric_of_mem_ofNat) hc
    · rw [hform] at hc
      exact isNumeric_of_mem_scientificDigits (fun _ => isNumeric_of_mem_ofNat) hc
  rcases hsign with hsign | hsign
  · rw [hsign] at h
    exact hmagnitude h
  · rw [hsign] at h
    rcases List.mem_cons.1 h with hc | hc
    · rw [hc]
      rfl
    · exact hmagnitude hc

theorem isNumeric_of_mem_writeNumber {n : JsonNumber} {c : Char} (h : c ∈ writeNumber n) :
    isNumeric c = true := by
  cases n with
  | integer n => exact isNumeric_of_mem_ofInt h
  | float x => exact isNumeric_of_mem_writeFloat h

/-- A number that is not kept as an integer is written with a point or an exponent. -/
theorem mem_writeFloat (x : Binary64) : '.' ∈ writeFloat x ∨ 'e' ∈ writeFloat x := by
  obtain ⟨top, magnitude, hform, hsign⟩ := exists_writeFloat x
  have hmagnitude : '.' ∈ magnitude ∨ 'e' ∈ magnitude := by
    rcases hform with hform | hform
    · rw [hform, plainDigits]
      split_ifs
      · have hpoint : '.' ∈ "0.".toList := by decide
        exact .inl (List.mem_append_left _ (List.mem_append_left _ hpoint))
      · exact .inl (List.mem_append_right _ List.mem_cons_self)
    · rw [hform]
      exact .inr (List.mem_append_right _ List.mem_cons_self)
  rcases hsign with hsign | hsign
  · rwa [hsign]
  · rw [hsign]
    exact hmagnitude.imp (List.mem_cons_of_mem _) (List.mem_cons_of_mem _)

theorem ofInt_ne_writeFloat (n : Int) (x : Binary64) : Text.ofInt n ≠ writeFloat x := by
  intro h
  rcases mem_writeFloat x with hx | hx
  · rw [← h] at hx
    exact absurd (isDigit_of_mem_ofInt hx) (by decide)
  · rw [← h] at hx
    exact absurd (isDigit_of_mem_ofInt hx) (by decide)

/-- A text that no number can go on with. -/
def Ends (s : Text) : Prop :=
  ∀ c ∈ s.head?, isNumeric c = false

theorem ends_cons {c : Char} (s : Text) (h : isNumeric c = false) : Ends (c :: s) := by
  intro d hd
  rwa [← Option.some.inj hd]

theorem takeWhile_writeNumber_append (n : JsonNumber) {s : Text} (h : Ends s) :
    (writeNumber n ++ s).takeWhile isNumeric = writeNumber n := by
  have hs : s.takeWhile isNumeric = [] := by
    cases s with
    | nil => rfl
    | cons c s => rw [List.takeWhile_cons, h c rfl, if_neg Bool.false_ne_true]
  rw [List.takeWhile_append_of_pos fun _ => isNumeric_of_mem_writeNumber, hs, List.append_nil]

theorem writeNumber_append_inj {m n : JsonNumber} {s t : Text} (hs : Ends s) (ht : Ends t)
    (h : writeNumber m ++ s = writeNumber n ++ t) : writeNumber m = writeNumber n ∧ s = t := by
  have hnumber : writeNumber m = writeNumber n := by
    rw [← takeWhile_writeNumber_append m hs, h, takeWhile_writeNumber_append n ht]
  rw [hnumber] at h
  exact ⟨hnumber, List.append_cancel_left h⟩

theorem writeNumber_ne_nil (n : JsonNumber) : writeNumber n ≠ [] := by
  cases n with
  | integer n =>
    cases n with
    | ofNat n => exact Text.ofNat_ne_nil n
    | negSucc n => exact List.cons_ne_nil _ _
  | float x =>
    rcases mem_writeFloat x with hx | hx
    · exact List.ne_nil_of_mem hx
    · exact List.ne_nil_of_mem hx

end Numbers

section Lists

theorem compactItems_eq (items : List Json) :
    compactItems items = [','].intercalate (items.map compact) := by
  induction items with
  | nil => rfl
  | cons item items ih =>
    cases items with
    | nil => rw [compactItems, List.map_cons, List.map_nil, List.intercalate_singleton]
    | cons next rest =>
      rw [compactItems, ih]
      · simp
      · simp

def compactMember (member : Text × Json) : Text :=
  quote member.1 ++ ':' :: compact member.2

theorem compactMembers_eq (members : List (Text × Json)) :
    compactMembers members = [','].intercalate (members.map compactMember) := by
  induction members with
  | nil => rfl
  | cons member members ih =>
    obtain ⟨name, value⟩ := member
    cases members with
    | nil =>
      rw [compactMembers, List.map_cons, List.map_nil, List.intercalate_singleton]
      rfl
    | cons next rest =>
      rw [compactMembers, ih]
      · simp [compactMember]
      · simp

/-- If texts can be told apart from what follows them, so can texts with commas between them. -/
theorem forall_of_intercalate_append {α : Type} {f g : α → Text} {P : α → Prop} {l : List α}
    (hitem : ∀ a ∈ l, ∀ s t, Ends s → Ends t → f a ++ s = g a ++ t → P a ∧ s = t)
    {s t : Text} (hs : Ends s) (ht : Ends t)
    (h : [','].intercalate (l.map f) ++ s = [','].intercalate (l.map g) ++ t) :
    (∀ a ∈ l, P a) ∧ s = t := by
  have hcomma : ∀ u, Ends (',' :: u) := fun u => ends_cons u rfl
  induction l with
  | nil => exact ⟨by simp, h⟩
  | cons a l ih =>
    cases l with
    | nil =>
      simp only [List.map_cons, List.map_nil, List.intercalate_singleton] at h
      obtain ⟨ha, hrest⟩ := hitem a List.mem_cons_self s t hs ht h
      exact ⟨by simpa using ha, hrest⟩
    | cons b l =>
      simp only [List.map_cons, List.intercalate_cons_cons, List.append_assoc,
        List.singleton_append] at h ih
      obtain ⟨ha, hrest⟩ := hitem a List.mem_cons_self _ _ (hcomma _) (hcomma _) h
      obtain ⟨hall, hend⟩ := ih (fun c hc => hitem c (List.mem_cons_of_mem a hc))
        (List.cons.inj hrest).2
      exact ⟨List.forall_mem_cons.2 ⟨ha, hall⟩, hend⟩

end Lists

section Lines

theorem newline_not_mem_escape (c : Char) : '\n' ∉ escape c := by
  have hdigit : ∀ n < 16, Nat.digitChar n ≠ '\n' := by decide
  have hhex : ∀ n, '\n' ≠ hexDigit n :=
    fun n => (hdigit (n % 16) (Nat.mod_lt n (by decide))).symm
  unfold escape
  split_ifs with _ _ _ _ hc
  all_goals try decide
  · simp [hhex]
  · simpa using Ne.symm hc

theorem newline_not_mem_quote (t : Text) : '\n' ∉ quote t := by
  intro h
  rw [quote, List.mem_append, List.mem_cons, List.mem_flatMap] at h
  rcases h with (h | ⟨c, -, hc⟩) | h
  · exact absurd h (by decide)
  · exact newline_not_mem_escape c hc
  · exact absurd h (by decide)

theorem not_mem_intercalate {l : List Text} (h : ∀ t ∈ l, '\n' ∉ t) :
    '\n' ∉ [','].intercalate l := by
  induction l with
  | nil => simp
  | cons t l ih =>
    have hl := ih fun u hu => h u (List.mem_cons_of_mem t hu)
    cases l with
    | nil =>
      rw [List.intercalate_singleton]
      exact h t List.mem_cons_self
    | cons u l =>
      rw [List.intercalate_cons_cons, List.mem_append, List.mem_append]
      rintro ((hm | hm) | hm)
      · exact h t List.mem_cons_self hm
      · exact absurd hm (by decide)
      · exact hl hm

/-- A value on one line has no line feed. -/
theorem newline_not_mem_compact (json : Json) : '\n' ∉ json.compact := by
  induction json using Json.induction with
  | null => exact fun h => absurd h (by decide)
  | bool b => cases b <;> exact fun h => absurd h (by decide)
  | string s => exact newline_not_mem_quote s
  | number n =>
    intro h
    exact absurd (isNumeric_of_mem_writeNumber h) (by decide)
  | array items ih =>
    have hitems : '\n' ∉ [','].intercalate (items.map compact) :=
      not_mem_intercalate (List.forall_mem_map.2 ih)
    rw [compact, compactItems_eq]
    simpa using hitems
  | object members ih =>
    have hmembers : '\n' ∉ [','].intercalate (members.map compactMember) := by
      refine not_mem_intercalate (List.forall_mem_map.2 fun member hm => ?_)
      simp [compactMember, newline_not_mem_quote, ih member hm]
    rw [compact, compactMembers_eq]
    simpa using hmembers

end Lines

end Json

end PromptChain
