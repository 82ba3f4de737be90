import Mathlib.Tactic.SplitIfs
import PromptChain.Json.Read

/-! The tokens of a JSON text. A number, a word or a string is read from the front of its source, and
what follows decides where it ends and nothing else. -/
namespace PromptChain.Json

namespace Raw

/-- A reader takes `front` as `a` wherever the symbol after it is `next`. -/
def Takes {α : Type} (read : List Symbol → Option (α × List Symbol)) (front : List Symbol) (a : α)
    (next : Option Symbol) : Prop :=
  ∀ rest, rest.head? = next → read (front ++ rest) = some (a, rest)

theorem head?_append_congr {s t : List Symbol} (front : List Symbol) (h : s.head? = t.head?) :
    (front ++ s).head? = (front ++ t).head? := by
  cases front with
  | nil => exact h
  | cons c front => rfl

section Numbers

/-- A symbol at which a row of digits ends. -/
def EndsDigits (next : Option Symbol) : Prop :=
  ∀ c, next = some (some c) → c.isDigit = false

theorem digits_append {ds : Text} (hd : ∀ d ∈ ds, d.isDigit = true) {rest : List Symbol}
    (hr : EndsDigits rest.head?) : digits (ds.map some ++ rest) = (ds, rest) := by
  induction ds with
  | nil =>
    cases rest with
    | nil => rfl
    | cons s rest =>
      cases s with
      | none => rfl
      | some c =>
        have hc : c.isDigit = false := hr c rfl
        simp [digits, hc]
  | cons d ds ih =>
    have hfirst : d.isDigit = true := hd d List.mem_cons_self
    have hrest := ih fun e he => hd e (List.mem_cons_of_mem d he)
    simp [digits, hfirst, hrest]

/-- The digits at the start of a source are all of them. -/
theorem digits_eq {s rest : List Symbol} {ds : Text} (h : digits s = (ds, rest)) :
    s = ds.map some ++ rest ∧ (∀ d ∈ ds, d.isDigit = true) ∧ EndsDigits rest.head? := by
  fun_induction digits s generalizing ds rest with
  | case1 c s hc ds' rest' hs ih =>
    cases h
    obtain ⟨rfl, hd, hr⟩ := ih hs
    refine ⟨rfl, ?_, hr⟩
    intro d hmem
    rcases List.mem_cons.1 hmem with rfl | hmem
    · exact hc
    · exact hd d hmem
  | case2 c s hc =>
    cases h
    refine ⟨rfl, by simp, ?_⟩
    intro d hd
    cases hd
    exact Bool.eq_false_iff.2 hc
  | case3 s hs =>
    cases h
    refine ⟨rfl, by simp, ?_⟩
    intro c hc
    cases s with
    | nil => cases hc
    | cons d s =>
      cases hc
      exact (hs c s rfl).elim

theorem digits_takes {s rest : List Symbol} {ds : Text} (h : digits s = (ds, rest)) :
    s = ds.map some ++ rest ∧
      ∀ rest', rest'.head? = rest.head? → digits (ds.map some ++ rest') = (ds, rest') := by
  obtain ⟨hs, hd, hr⟩ := digits_eq h
  refine ⟨hs, fun rest' hrest => digits_append hd ?_⟩
  rw [hrest]
  exact hr

theorem fraction?_takes {s rest : List Symbol} {ds : Text} (h : fraction? s = some (ds, rest)) :
    ∃ front, s = front ++ rest ∧ Takes fraction? front ds rest.head? := by
  unfold fraction? at h
  split at h
  · next s =>
    split at h
    · cases h
    · next hne =>
      obtain ⟨hs, htakes⟩ := digits_takes (Option.some.inj h)
      refine ⟨some '.' :: ds.map some, by rw [hs, List.cons_append], ?_⟩
      intro rest' hrest
      rw [List.cons_append, fraction?, htakes rest' hrest]
      cases ds with
      | nil => exact (hne _ (Option.some.inj h)).elim
      | cons d ds => rfl
  · next hpoint =>
    cases h
    refine ⟨[], rfl, ?_⟩
    intro rest' hrest
    rw [List.nil_append, fraction?]
    rintro more rfl
    obtain ⟨more, hmore⟩ := List.head?_eq_some_iff.1 hrest.symm
    exact hpoint more hmore

theorem exponentDigits?_takes {negative : Bool} {s rest : List Symbol} {e : Option (Bool × Text)}
    (h : exponentDigits? negative s = some (e, rest)) :
    ∃ (d : Char) (front : List Symbol), d.isDigit = true ∧ s = some d :: front ++ rest ∧
      Takes (exponentDigits? negative) (some d :: front) e rest.head? := by
  unfold exponentDigits? at h
  split at h
  · cases h
  · next ds rest hne hdigits =>
    cases h
    obtain ⟨hs, htakes⟩ := digits_takes hdigits
    obtain ⟨-, hd, -⟩ := digits_eq hdigits
    cases ds with
    | nil => exact (hne rfl).elim
    | cons d ds =>
      refine ⟨d, ds.map some, hd d List.mem_cons_self, hs, ?_⟩
      intro rest' hrest
      have hdigits' := htakes rest' hrest
      rw [List.map_cons] at hdigits'
      rw [exponentDigits?, hdigits']

theorem exponent?_takes {s rest : List Symbol} {e : Option (Bool × Text)}
    (h : exponent? s = some (e, rest)) :
    ∃ front, s = front ++ rest ∧ Takes exponent? front e rest.head? := by
  unfold exponent? at h
  split at h
  · next c s =>
    split_ifs at h with hc
    · split at h
      · next s =>
        obtain ⟨d, front, -, rfl, htakes⟩ := exponentDigits?_takes h
        refine ⟨some c :: some '+' :: some d :: front, rfl, fun rest' hrest => ?_⟩
        change (if c = 'e' ∨ c = 'E' then _ else _) = _
        rw [if_pos hc]
        exact htakes rest' hrest
      · next s =>
        obtain ⟨d, front, -, rfl, htakes⟩ := exponentDigits?_takes h
        refine ⟨some c :: some '-' :: some d :: front, rfl, fun rest' hrest => ?_⟩
        change (if c = 'e' ∨ c = 'E' then _ else _) = _
        rw [if_pos hc]
        exact htakes rest' hrest
      · obtain ⟨d, front, hd, rfl, htakes⟩ := exponentDigits?_takes h
        refine ⟨some c :: some d :: front, rfl, fun rest' hrest => ?_⟩
        rw [List.cons_append, exponent?, if_pos hc]
        · exact htakes rest' hrest
        · rintro s heq
          cases heq
          cases hd
        · rintro s heq
          cases heq
          cases hd
    · cases h
      refine ⟨[], rfl, fun rest' hrest => ?_⟩
      obtain ⟨more, rfl⟩ := List.head?_eq_some_iff.1 hrest
      change (if c = 'e' ∨ c = 'E' then _ else _) = _
      rw [if_neg hc]
  · next hnone =>
    cases h
    refine ⟨[], rfl, fun rest' hrest => ?_⟩
    rw [List.nil_append, exponent?]
    rintro c more rfl
    obtain ⟨more, hmore⟩ := List.head?_eq_some_iff.1 hrest.symm
    exact hnone c more hmore

theorem unsigned?_takes {negative : Bool} {s rest : List Symbol} {n : Numeral}
    (h : unsigned? negative s = some (n, rest)) :
    ∃ (d : Char) (front : List Symbol), d.isDigit = true ∧ s = some d :: front ++ rest ∧
      Takes (unsigned? negative) (some d :: front) n rest.head? := by
  unfold unsigned? at h
  cases hw : digits s with
  | mk whole s' =>
    rw [hw] at h
    dsimp only at h
    obtain ⟨hs, hwhole⟩ := digits_takes hw
    split at h
    · cases h
    · cases h
    · next hnil hzero =>
      obtain ⟨⟨fraction, s₁⟩, hf, h⟩ := Option.bind_eq_some_iff.1 h
      obtain ⟨⟨exponent, s₂⟩, he, h⟩ := Option.bind_eq_some_iff.1 h
      cases h
      obtain ⟨front₁, rfl, htakes₁⟩ := fraction?_takes hf
      obtain ⟨front₂, rfl, htakes₂⟩ := exponent?_takes he
      cases whole with
      | nil => exact (hnil rfl).elim
      | cons d whole =>
        obtain ⟨-, hd, -⟩ := digits_eq hw
        refine ⟨d, whole.map some ++ (front₁ ++ front₂), hd d List.mem_cons_self, by simp [hs], ?_⟩
        intro rest' hrest
        have hhead : (front₂ ++ rest').head? = (front₂ ++ s₂).head? :=
          head?_append_congr front₂ hrest
        have hdigits := hwhole (front₁ ++ (front₂ ++ rest')) (head?_append_congr front₁ hhead)
        rw [← List.cons_append, ← List.map_cons, List.append_assoc, List.append_assoc, unsigned?,
          hdigits]
        dsimp only
        split
        · next hempty => cases hempty
        · next hlong => exact (hzero _ _ hlong).elim
        · rw [htakes₁ _ hhead]
          change Option.bind (exponent? (front₂ ++ rest')) _ = _
          rw [htakes₂ rest' hrest]
          rfl

end Numbers

theorem word?_eq {w : Text} {s rest : List Symbol} (h : word? w s = some rest) :
    s = w.map some ++ rest := by
  fun_induction word? w s with
  | case1 s =>
    cases h
    rfl
  | case2 c w s ih => rw [ih h, List.map_cons, List.cons_append]
  | case3 => cases h
  | case4 => cases h

theorem word?_append (w : Text) (rest : List Symbol) : word? w (w.map some ++ rest) = some rest := by
  induction w with
  | nil => rfl
  | cons c w ih => simp [word?, ih]

/-- A string ends at its closing quote, whatever follows. -/
theorem string?_takes {s rest : List Symbol} {parts : List StringPart}
    (h : string? s = some (parts, rest)) :
    ∃ front, s = front ++ rest ∧ ∀ rest', string? (front ++ rest') = some (parts, rest') := by
  fun_induction string? s generalizing parts with
  | case1 => cases h
  | case2 rest =>
    cases h
    exact ⟨[some '"'], rfl, fun rest' => rfl⟩
  | case3 a b c d s ih =>
    obtain ⟨n, hn, h⟩ := Option.bind_eq_some_iff.1 h
    obtain ⟨⟨more, rest₁⟩, hmore, h⟩ := Option.bind_eq_some_iff.1 h
    cases h
    obtain ⟨front, rfl, htakes⟩ := ih hmore
    refine ⟨some '\\' :: some 'u' :: some a :: some b :: some c :: some d :: front, rfl, ?_⟩
    intro rest'
    change Option.bind (unit? a b c d) _ = _
    rw [hn]
    change Option.bind (string? (front ++ rest')) _ = _
    rw [htakes rest']
    rfl
  | case4 e s hu ih =>
    obtain ⟨c, hc, h⟩ := Option.bind_eq_some_iff.1 h
    obtain ⟨⟨more, rest₁⟩, hmore, h⟩ := Option.bind_eq_some_iff.1 h
    cases h
    obtain ⟨front, rfl, htakes⟩ := ih hmore
    refine ⟨some '\\' :: some e :: front, rfl, ?_⟩
    intro rest'
    rw [List.cons_append, List.cons_append, string?]
    · change Option.bind (escape? e) _ = _
      rw [hc]
      change Option.bind (string? (front ++ rest')) _ = _
      rw [htakes rest']
      rfl
    · rintro a b c d rest - rfl
      cases hc
  | case5 => cases h
  | case6 => cases h
  | case7 c s hquote _ _ hslash hc ih =>
    obtain ⟨⟨more, rest₁⟩, hmore, h⟩ := Option.bind_eq_some_iff.1 h
    cases h
    obtain ⟨front, rfl, htakes⟩ := ih hmore
    refine ⟨some c :: front, rfl, ?_⟩
    intro rest'
    rw [List.cons_append, string?, if_neg hc]
    · change Option.bind (string? (front ++ rest')) _ = _
      rw [htakes rest']
      rfl
    · exact hquote
    · exact fun _ _ _ _ _ _ => hslash
    · exact fun _ _ _ => hslash
    · exact hslash
  | case8 s ih =>
    obtain ⟨⟨more, rest₁⟩, hmore, h⟩ := Option.bind_eq_some_iff.1 h
    cases h
    obtain ⟨front, rfl, htakes⟩ := ih hmore
    refine ⟨none :: front, rfl, ?_⟩
    intro rest'
    change Option.bind (string? (front ++ rest')) _ = _
    rw [htakes rest']
    rfl

end Raw

end PromptChain.Json
