import PromptChain.Proofs.JsonTokens

/-! The grammar of JSON texts: which readers a value, the items of an array and the members of an
object are read by. -/
namespace PromptChain.Json

namespace Raw

/-- What a value is read from, after the blanks before it. -/
inductive ValueAt (fuel : Nat) : List Symbol → Raw → List Symbol → Prop where
  | string {more rest parts} (h : string? more = some (parts, rest)) :
      ValueAt fuel (some '"' :: more) (.string parts) rest
  | emptyArray {more rest} (h : skip more = some ']' :: rest) :
      ValueAt fuel (some '[' :: more) (.array []) rest
  | array {more rest items} (hne : (skip more).head? ≠ some (some ']'))
      (h : items? fuel (skip more) = some (items, rest)) :
      ValueAt fuel (some '[' :: more) (.array items) rest
  | emptyObject {more rest} (h : skip more = some '}' :: rest) :
      ValueAt fuel (some '{' :: more) (.object []) rest
  | object {more rest members} (hne : (skip more).head? ≠ some (some '}'))
      (h : members? fuel (skip more) = some (members, rest)) :
      ValueAt fuel (some '{' :: more) (.object members) rest
  | null {more rest} (h : word? ['u', 'l', 'l'] more = some rest) :
      ValueAt fuel (some 'n' :: more) .null rest
  | true {more rest} (h : word? ['r', 'u', 'e'] more = some rest) :
      ValueAt fuel (some 't' :: more) (.bool true) rest
  | false {more rest} (h : word? ['a', 'l', 's', 'e'] more = some rest) :
      ValueAt fuel (some 'f' :: more) (.bool false) rest
  | negative {more rest n} (h : unsigned? true more = some (n, rest)) :
      ValueAt fuel (some '-' :: more) (.number n) rest
  | positive {d more rest n} (hd : d.isDigit = true)
      (h : unsigned? false (some d :: more) = some (n, rest)) :
      ValueAt fuel (some d :: more) (.number n) rest

theorem valueAt_of_value? {fuel : Nat} {s rest : List Symbol} {raw : Raw}
    (h : value? (fuel + 1) s = some (raw, rest)) : ValueAt fuel (skip s) raw rest := by
  unfold value? at h
  split at h
  · next more hs =>
    obtain ⟨⟨parts, rest⟩, hparts, h⟩ := Option.map_eq_some_iff.1 h
    cases h
    rw [hs]
    exact .string hparts
  · next more hs =>
    rw [hs]
    split at h
    · next hclosed =>
      cases h
      exact .emptyArray hclosed
    · next hopen =>
      obtain ⟨⟨items, rest⟩, hitems, h⟩ := Option.map_eq_some_iff.1 h
      cases h
      refine .array (fun hhead => ?_) hitems
      obtain ⟨tail, htail⟩ := List.head?_eq_some_iff.1 hhead
      exact hopen tail htail
  · next more hs =>
    rw [hs]
    split at h
    · next hclosed =>
      cases h
      exact .emptyObject hclosed
    · next hopen =>
      obtain ⟨⟨members, rest⟩, hmembers, h⟩ := Option.map_eq_some_iff.1 h
      cases h
      refine .object (fun hhead => ?_) hmembers
      obtain ⟨tail, htail⟩ := List.head?_eq_some_iff.1 hhead
      exact hopen tail htail
  · next more hs =>
    obtain ⟨⟨n, rest⟩, hn, h⟩ := Option.map_eq_some_iff.1 h
    cases h
    rw [hs]
    exact .negative hn
  · next more hs =>
    obtain ⟨rest, hrest, h⟩ := Option.map_eq_some_iff.1 h
    cases h
    rw [hs]
    exact .null hrest
  · next more hs =>
    obtain ⟨rest, hrest, h⟩ := Option.map_eq_some_iff.1 h
    cases h
    rw [hs]
    exact .true hrest
  · next more hs =>
    obtain ⟨rest, hrest, h⟩ := Option.map_eq_some_iff.1 h
    cases h
    rw [hs]
    exact .false hrest
  · obtain ⟨⟨n, rest⟩, hn, h⟩ := Option.map_eq_some_iff.1 h
    cases h
    obtain ⟨d, front, hd, hs, -⟩ := unsigned?_takes hn
    rw [hs, List.cons_append] at hn ⊢
    exact .positive hd hn

theorem value?_of_valueAt {fuel : Nat} {s rest : List Symbol} {raw : Raw}
    (h : ValueAt fuel (skip s) raw rest) : value? (fuel + 1) s = some (raw, rest) := by
  generalize hs : skip s = source at h
  unfold value?
  rw [hs]
  cases h with
  | string h =>
    change (string? _).map _ = _
    rw [h]
    rfl
  | emptyArray h => simp only [h]
  | array hne h =>
    simp only
    split
    · next hclosed =>
      rw [hclosed] at hne
      exact (hne rfl).elim
    · rw [h]
      rfl
  | emptyObject h => simp only [h]
  | object hne h =>
    simp only
    split
    · next hclosed =>
      rw [hclosed] at hne
      exact (hne rfl).elim
    · rw [h]
      rfl
  | null h =>
    change (word? _ _).map _ = _
    rw [h]
    rfl
  | true h =>
    change (word? _ _).map _ = _
    rw [h]
    rfl
  | false h =>
    change (word? _ _).map _ = _
    rw [h]
    rfl
  | negative h =>
    change (unsigned? true _).map _ = _
    rw [h]
    rfl
  | positive hd h =>
    split
    case h_8 =>
      rw [h]
      rfl
    all_goals
      next heq =>
      cases heq
      cases hd

theorem items?_eq_some_iff {fuel : Nat} {s rest : List Symbol} {items : List Raw} :
    items? (fuel + 1) s = some (items, rest) ↔
      ∃ item after, value? fuel s = some (item, after) ∧
        (skip after = some ']' :: rest ∧ items = [item] ∨
          ∃ more others, skip after = some ',' :: more ∧ items? fuel more = some (others, rest) ∧
            items = item :: others) := by
  constructor
  · intro h
    rw [items?] at h
    obtain ⟨⟨item, after⟩, hitem, h⟩ := Option.bind_eq_some_iff.1 h
    refine ⟨item, after, hitem, ?_⟩
    dsimp only at h
    split at h
    · next more hskip =>
      obtain ⟨⟨others, rest⟩, hothers, h⟩ := Option.bind_eq_some_iff.1 h
      cases h
      exact Or.inr ⟨more, others, hskip, hothers, rfl⟩
    · next hskip =>
      cases h
      exact Or.inl ⟨hskip, rfl⟩
    · cases h
  · rintro ⟨item, after, hitem, h⟩
    rw [items?]
    change Option.bind (value? fuel s) _ = _
    rw [hitem, Option.bind_some]
    dsimp only
    rcases h with ⟨hskip, rfl⟩ | ⟨more, others, hskip, hothers, rfl⟩
    · rw [hskip]
      rfl
    · rw [hskip]
      change Option.bind (items? fuel more) _ = _
      rw [hothers]
      rfl

theorem members?_eq_some_iff {fuel : Nat} {s rest : List Symbol}
    {members : List (List StringPart × Raw)} :
    members? (fuel + 1) s = some (members, rest) ↔
      ∃ start name colon source value after, skip s = some '"' :: start ∧
        string? start = some (name, colon) ∧ skip colon = some ':' :: source ∧
        value? fuel source = some (value, after) ∧
        (skip after = some '}' :: rest ∧ members = [(name, value)] ∨
          ∃ more others, skip after = some ',' :: more ∧ members? fuel more = some (others, rest) ∧
            members = (name, value) :: others) := by
  constructor
  · intro h
    rw [members?] at h
    split at h
    · next start hstart =>
      obtain ⟨⟨name, colon⟩, hname, h⟩ := Option.bind_eq_some_iff.1 h
      dsimp only at h
      split at h
      · next source hcolon =>
        obtain ⟨⟨value, after⟩, hvalue, h⟩ := Option.bind_eq_some_iff.1 h
        refine ⟨start, name, colon, source, value, after, hstart, hname, hcolon, hvalue, ?_⟩
        dsimp only at h
        split at h
        · next more hskip =>
          obtain ⟨⟨others, rest⟩, hothers, h⟩ := Option.bind_eq_some_iff.1 h
          cases h
          exact Or.inr ⟨more, others, hskip, hothers, rfl⟩
        · next hskip =>
          cases h
          exact Or.inl ⟨hskip, rfl⟩
        · cases h
      · cases h
    · cases h
  · rintro ⟨start, name, colon, source, value, after, hstart, hname, hcolon, hvalue, h⟩
    rw [members?, hstart]
    change Option.bind (string? start) _ = _
    rw [hname, Option.bind_some]
    dsimp only
    rw [hcolon]
    change Option.bind (value? fuel source) _ = _
    rw [hvalue, Option.bind_some]
    dsimp only
    rcases h with ⟨hskip, rfl⟩ | ⟨more, others, hskip, hothers, rfl⟩
    · rw [hskip]
      rfl
    · rw [hskip]
      change Option.bind (members? fuel more) _ = _
      rw [hothers]
      rfl

end Raw

end PromptChain.Json
