import Mathlib.Data.List.TakeWhile
import PromptChain.Proofs.Rejection

/-! The exact verdict on actions. Whether a name is legal depends on the number of the step and on what
the first step declares, and the verdict tells the first check that fails. -/
namespace PromptChain

/-- A numeral of any length, digits after at most one plus sign, and the number that it denotes. -/
def Text.IsNumeral (t : Text) (k : Nat) : Prop :=
  ∃ digits, (t = digits ∨ t = '+' :: digits) ∧ digits ≠ [] ∧ digits.all Char.isDigit = true ∧
    digitsValue digits = k

theorem Text.word?_eq_some_iff_isNumeral {t : Text} {k : Nat} :
    word? t = some k ↔ IsNumeral t k ∧ k < wordLimit := by
  rw [word?_eq_some_iff]
  constructor
  · rintro ⟨digits, ht, hne, hd, hk, hlt⟩
    exact ⟨⟨digits, ht, hne, hd, hk⟩, hlt⟩
  · rintro ⟨⟨digits, ht, hne, hd, hk⟩, hlt⟩
    exact ⟨digits, ht, hne, hd, hk, hlt⟩

theorem Text.minus_notMem_of_isNumeral {t : Text} {k : Nat} (h : IsNumeral t k) : '-' ∉ t := by
  obtain ⟨digits, ht, -, hd, -⟩ := h
  have hdigits : '-' ∉ digits := fun hm => absurd (List.all_eq_true.1 hd '-' hm) (by decide)
  rcases ht with rfl | rfl
  · exact hdigits
  · rw [List.mem_cons, not_or]
    exact ⟨by decide, hdigits⟩

/-- A name that step `n` may use: the first step declares it, or it is `step_` and a numeral of an
earlier step. -/
def Step.IsLegal (declared : List Text) (n : Nat) (name : Text) : Prop :=
  name ∈ declared ∨
    ∃ numeral k, name = outputStem ++ '_' :: numeral ∧ Text.IsNumeral numeral k ∧ 1 ≤ k ∧ k < n

/-- A check of a step: that a text is not blank, or that a name is legal. -/
inductive Check where
  | text (t : Text)
  | name (used : Text)

namespace Check

def Holds (declared : List Text) (n : Nat) : Check → Prop
  | text t => t.allBlank = false
  | name used => Step.IsLegal declared n used

/-- What a check that does not hold is blamed on. A name is cut at its first underscore. -/
inductive Reason : Check → Violation → Prop where
  | emptyText (t : Text) : Reason (text t) .emptyText
  | missingUnderscore {used : Text} (h : '_' ∉ used) : Reason (name used) .missingUnderscore
  | negativeNumber {stem number : Text} (hstem : '_' ∉ stem) (hminus : '-' ∈ number) :
      Reason (name (stem ++ '_' :: number)) .negativeNumber
  | incorrectStem {stem number : Text} (hstem : '_' ∉ stem) (hminus : '-' ∉ number)
      (hne : stem ≠ Step.outputStem) : Reason (name (stem ++ '_' :: number)) .incorrectStem
  | incorrectNumber {number : Text} (hminus : '-' ∉ number) :
      Reason (name (Step.outputStem ++ '_' :: number)) .incorrectNumber

/-- The first of the checks that does not hold is blamed on `v`. -/
def FirstFault (declared : List Text) (n : Nat) (checks : List Check) (v : Violation) : Prop :=
  ∃ before check after, checks = before ++ check :: after ∧
    (∀ b ∈ before, b.Holds declared n) ∧ ¬check.Holds declared n ∧ check.Reason v

end Check

/-- The checks of a text: it is not blank, and its names are legal from left to right. -/
def Text.checks (t : Text) : List Check :=
  .text t :: t.placeholders.map .name

/-- The checks of an action: those of its texts in order, then the source of its list. -/
def Action.checks (a : Action) : List Check :=
  a.checkedTexts.flatMap Text.checks ++ a.heading.kind.source?.toList.map .name

def Action.Accepted (declared : List Text) (n : Nat) (a : Action) : Prop :=
  ∀ check ∈ a.checks, check.Holds declared n

section Names

theorem bne_underscore_of_notMem {stem : Text} (h : '_' ∉ stem) : ∀ c ∈ stem, (c != '_') = true := by
  intro c hc
  rw [bne_iff_ne]
  rintro rfl
  exact h hc

theorem nameViolation?_of_notMem {n : Nat} {known : List Text} {name : Text} (hk : name ∉ known)
    (h : '_' ∉ name) : nameViolation? n known name = some .missingUnderscore := by
  have hcut : name.dropWhile (· != '_') = [] := by
    rw [List.dropWhile_eq_nil_iff]
    exact bne_underscore_of_notMem h
  rw [nameViolation?, if_neg (by simpa using hk), hcut]

/-- What is wrong with an unknown name that has an underscore. -/
theorem nameViolation?_cut {n : Nat} {known : List Text} {stem number : Text} (hstem : '_' ∉ stem)
    (hk : stem ++ '_' :: number ∉ known) :
    nameViolation? n known (stem ++ '_' :: number) =
      if '-' ∈ number then some .negativeNumber
      else if stem ≠ Step.outputStem then some .incorrectStem
      else
        match Text.word? number with
        | some index => if 1 ≤ index ∧ index < n then none else some .incorrectNumber
        | none => some .incorrectNumber := by
  have hdrop : (stem ++ '_' :: number).dropWhile (· != '_') = '_' :: number := by
    rw [List.dropWhile_append_of_pos (bne_underscore_of_notMem hstem)]
    rfl
  have htake : (stem ++ '_' :: number).takeWhile (· != '_') = stem := by
    rw [List.takeWhile_append_of_pos (bne_underscore_of_notMem hstem)]
    exact List.append_nil stem
  rw [nameViolation?, if_neg (by simpa using hk)]
  cases hword : Text.word? number <;> simp only [hdrop, htake, hword]

theorem underscore_notMem_outputStem : '_' ∉ Step.outputStem := by
  decide

theorem nameViolation?_of_isNumeral {n k : Nat} {known : List Text} {numeral : Text}
    (h : Text.IsNumeral numeral k) (hlt : k < Text.wordLimit) (h1 : 1 ≤ k) (hkn : k < n) :
    nameViolation? n known (Step.outputStem ++ '_' :: numeral) = none := by
  by_cases hk : Step.outputStem ++ '_' :: numeral ∈ known
  · rw [nameViolation?, if_pos (by simpa using hk)]
  · have hword : Text.word? numeral = some k := Text.word?_eq_some_iff_isNumeral.2 ⟨h, hlt⟩
    have hminus := Text.minus_notMem_of_isNumeral h
    rw [nameViolation?_cut underscore_notMem_outputStem hk, if_neg hminus, if_neg (by simp), hword]
    exact if_pos ⟨h1, hkn⟩

/-- The names that are known at step `n`: what the first step declares and the outputs so far. -/
def Knows (declared : List Text) (n : Nat) (known : List Text) : Prop :=
  ∀ name, name ∈ known ↔ name ∈ declared ∨ Step.IsEarlier n name

theorem knows_start (declared : List Text) : Knows declared 1 declared := by
  intro name
  constructor
  · exact Or.inl
  · rintro (h | ⟨k, h1, hk, -⟩)
    · exact h
    · omega

theorem Knows.addName {declared known : List Text} {n : Nat} (h : Knows declared n known)
    (hn : 1 ≤ n) : Knows declared (n + 1) (addName known (Step.outputKey n)) := by
  have hadded : ∀ name, name ∈ PromptChain.addName known (Step.outputKey n) ↔
      name ∈ known ∨ name = Step.outputKey n := by
    intro name
    unfold PromptChain.addName
    split_ifs with hc
    · have hmem : Step.outputKey n ∈ known := by simpa using hc
      exact ⟨Or.inl, fun hname => hname.elim id fun heq => heq ▸ hmem⟩
    · simp
  intro name
  rw [hadded, h name, or_assoc]
  apply or_congr Iff.rfl
  constructor
  · rintro (⟨k, h1, hk, rfl⟩ | rfl)
    · exact ⟨k, h1, by omega, rfl⟩
    · exact ⟨n, hn, by omega, rfl⟩
  · rintro ⟨k, h1, hk, rfl⟩
    by_cases hkn : k = n
    · exact Or.inr (congrArg Step.outputKey hkn)
    · exact Or.inl ⟨k, h1, by omega, rfl⟩

variable {declared known : List Text} {n : Nat} (hk : Knows declared n known)
include hk

/-- A known name is legal without being known: an output so far is spelled with an earlier number. -/
theorem Knows.isLegal {name : Text} (h : name ∈ known) : Step.IsLegal declared n name := by
  rcases (hk name).1 h with hd | ⟨k, h1, hkn, rfl⟩
  · exact Or.inl hd
  · have hdigits : (Text.ofNat k).all Char.isDigit = true :=
      List.all_eq_true.2 fun _ => Text.isDigit_of_mem_ofNat
    have hnumeral : Text.IsNumeral (Text.ofNat k) k :=
      ⟨Text.ofNat k, Or.inl rfl, Text.ofNat_ne_nil k, hdigits, Text.digitsValue_ofNat k⟩
    exact Or.inr ⟨Text.ofNat k, k, rfl, hnumeral, h1, hkn⟩

theorem Knows.nameViolation?_eq_none_iff (hn : n < Text.wordLimit) {name : Text} :
    nameViolation? n known name = none ↔ Step.IsLegal declared n name := by
  constructor
  · intro h
    rcases known_or_spells_of_nameViolation? h with hm | ⟨k, h1, hkn, numeral, hname, hword⟩
    · exact hk.isLegal hm
    · exact Or.inr ⟨numeral, k, hname, (Text.word?_eq_some_iff_isNumeral.1 hword).1, h1, hkn⟩
  · rintro (hd | ⟨numeral, k, rfl, hnumeral, h1, hkn⟩)
    · have hm : name ∈ known := (hk name).2 (Or.inl hd)
      rw [nameViolation?, if_pos (by simpa using hm)]
    · exact nameViolation?_of_isNumeral hnumeral (by omega) h1 hkn

omit hk in
theorem reason_of_nameViolation? {name : Text} {v : Violation}
    (h : nameViolation? n known name = some v) : (Check.name name).Reason v := by
  have hm : name ∉ known := by
    intro hm
    rw [nameViolation?, if_pos (by simpa using hm)] at h
    cases h
  by_cases hu : '_' ∈ name
  · obtain ⟨stem, number, rfl, hstem⟩ := List.eq_append_cons_of_mem hu
    rw [nameViolation?_cut hstem hm] at h
    split_ifs at h with hminus hne
    · cases h
      exact .negativeNumber hstem hminus
    · cases h
      exact .incorrectStem hstem hminus hne
    · rw [ne_eq, not_not] at hne
      subst hne
      have hv : v = .incorrectNumber := by
        split at h
        · split_ifs at h
          exact (Option.some.inj h).symm
        · exact (Option.some.inj h).symm
      rw [hv]
      exact .incorrectNumber hminus
  · rw [nameViolation?_of_notMem hm hu] at h
    cases h
    exact .missingUnderscore hu

theorem Knows.nameViolation?_of_reason (hn : n < Text.wordLimit) {name : Text} {v : Violation}
    (hl : ¬Step.IsLegal declared n name) (h : (Check.name name).Reason v) :
    nameViolation? n known name = some v := by
  have hm : name ∉ known := fun hm => hl (hk.isLegal hm)
  cases h with
  | missingUnderscore hu => exact nameViolation?_of_notMem hm hu
  | negativeNumber hstem hminus => rw [nameViolation?_cut hstem hm, if_pos hminus]
  | incorrectStem hstem hminus hne => rw [nameViolation?_cut hstem hm, if_neg hminus, if_pos hne]
  | @incorrectNumber number hminus =>
    have hnone := mt (hk.nameViolation?_eq_none_iff hn).1 hl
    rw [nameViolation?_cut underscore_notMem_outputStem hm, if_neg hminus, if_neg (by simp)]
      at hnone ⊢
    cases hword : Text.word? number with
    | none => rfl
    | some index =>
      rw [hword] at hnone
      exact if_neg fun hindex => hnone (if_pos hindex)

end Names

namespace Check

/-- What is wrong with a check where the names `known` may be used. -/
def violation? (n : Nat) (known : List Text) : Check → Option Violation
  | text t => if t.allBlank then some .emptyText else none
  | name used => nameViolation? n known used

section

variable {declared known : List Text} {n : Nat} (hk : Knows declared n known)
  (hn : n < Text.wordLimit)
include hk hn

theorem violation?_eq_none_iff {check : Check} :
    check.violation? n known = none ↔ check.Holds declared n := by
  cases check with
  | text t => cases h : t.allBlank <;> simp [violation?, Holds, h]
  | name used => exact hk.nameViolation?_eq_none_iff hn

theorem violation?_eq_some_iff {check : Check} {v : Violation} :
    check.violation? n known = some v ↔ ¬check.Holds declared n ∧ check.Reason v := by
  constructor
  · intro h
    have hfails : ¬check.Holds declared n := by
      rw [← violation?_eq_none_iff hk hn, h]
      simp
    refine ⟨hfails, ?_⟩
    cases check with
    | text t =>
      rw [violation?] at h
      split_ifs at h
      cases h
      exact .emptyText t
    | name used => exact reason_of_nameViolation? h
  · rintro ⟨hfails, hreason⟩
    cases check with
    | text t =>
      cases hreason
      have hblank : t.allBlank = true := by simpa [Holds] using hfails
      rw [violation?, if_pos hblank]
    | name used => exact hk.nameViolation?_of_reason hn hfails hreason

theorem findSome?_eq_none_iff {checks : List Check} :
    checks.findSome? (violation? n known) = none ↔ ∀ check ∈ checks, check.Holds declared n := by
  rw [List.findSome?_eq_none_iff]
  exact forall₂_congr fun check _ => violation?_eq_none_iff hk hn

theorem findSome?_eq_some_iff {checks : List Check} {v : Violation} :
    checks.findSome? (violation? n known) = some v ↔ FirstFault declared n checks v := by
  rw [List.findSome?_eq_some_iff]
  constructor
  · rintro ⟨before, check, after, hchecks, hv, hbefore⟩
    obtain ⟨hfails, hreason⟩ := (violation?_eq_some_iff hk hn).1 hv
    exact ⟨before, check, after, hchecks,
      fun b hb => (violation?_eq_none_iff hk hn).1 (hbefore b hb), hfails, hreason⟩
  · rintro ⟨before, check, after, hchecks, hbefore, hfails, hreason⟩
    exact ⟨before, check, after, hchecks, (violation?_eq_some_iff hk hn).2 ⟨hfails, hreason⟩,
      fun b hb => (violation?_eq_none_iff hk hn).2 (hbefore b hb)⟩

end

end Check

section Actions

theorem promptViolation?_eq (n : Nat) (known : List Text) (t : Text) :
    promptViolation? n known t = t.checks.findSome? (Check.violation? n known) := by
  have hnames : (t.placeholders.map Check.name).findSome? (Check.violation? n known) =
      t.placeholders.findSome? (nameViolation? n known) := List.findSome?_map
  rw [promptViolation?, Text.checks, List.findSome?_cons, hnames, Check.violation?]
  split_ifs <;> rfl

theorem findSome?_flatMap_checks (n : Nat) (known : List Text) (texts : List Text) :
    (texts.flatMap Text.checks).findSome? (Check.violation? n known) =
      texts.findSome? (promptViolation? n known) := by
  induction texts with
  | nil => rfl
  | cons t texts ih =>
    rw [List.flatMap_cons, List.findSome?_append, ih, ← promptViolation?_eq, List.findSome?_cons]
    cases promptViolation? n known t <;> rfl

/-- What is wrong with an action is what its first failing check tells. -/
theorem Action.violation?_eq (n : Nat) (known : List Text) (a : Action) :
    a.violation? n known = a.checks.findSome? (Check.violation? n known) := by
  rw [violation?, checks, List.findSome?_append, findSome?_flatMap_checks]
  congr 1
  cases a.heading.kind.source? with
  | none => rfl
  | some source =>
    change nameViolation? n known source = [Check.name source].findSome? _
    rw [List.findSome?_singleton, Check.violation?]

variable {declared known : List Text} {n : Nat}

/-- The verdict from step `n` on: no check fails, or the first check that fails is told with its
step. -/
theorem verdictFrom_iff {actions : List Action} (hk : Knows declared n known) (h1 : 1 ≤ n)
    (hn : n + actions.length ≤ Text.wordLimit) :
    (verdictFrom known n actions = .valid ↔
      ∀ numbered ∈ actions.zipIdx n, numbered.1.Accepted declared numbered.2) ∧
    ∀ m v, verdictFrom known n actions = .rejected m v ↔
      ∃ before a after, actions.zipIdx n = before ++ (a, m) :: after ∧
        (∀ numbered ∈ before, numbered.1.Accepted declared numbered.2) ∧
        Check.FirstFault declared m a.checks v := by
  induction actions generalizing known n with
  | nil => simp [verdictFrom]
  | cons a rest ih =>
    rw [List.length_cons] at hn
    have hword : n < Text.wordLimit := by omega
    rw [verdictFrom, Action.violation?_eq, List.zipIdx_cons]
    cases hv : a.checks.findSome? (Check.violation? n known) with
    | some v =>
      have hfault := (Check.findSome?_eq_some_iff hk hword).1 hv
      have hnot : ¬a.Accepted declared n := by
        intro haccepted
        rw [(Check.findSome?_eq_none_iff hk hword).2 haccepted] at hv
        cases hv
      constructor
      · constructor
        · intro h
          cases h
        · intro h
          exact absurd (h (a, n) List.mem_cons_self) hnot
      · intro m w
        constructor
        · intro h
          cases h
          exact ⟨[], a, _, rfl, by simp, hfault⟩
        · rintro ⟨before, b, after, hsplit, hbefore, hw⟩
          cases before with
          | nil =>
            cases hsplit
            rw [(Check.findSome?_eq_some_iff hk hword).2 hw] at hv
            cases hv
            rfl
          | cons first before =>
            obtain ⟨rfl, -⟩ := List.cons.inj hsplit
            exact absurd (hbefore (a, n) List.mem_cons_self) hnot
    | none =>
      have haccepted : a.Accepted declared n := (Check.findSome?_eq_none_iff hk hword).1 hv
      obtain ⟨hvalid, hrejected⟩ := ih (hk.addName h1) (by omega) (by omega)
      constructor
      · rw [List.forall_mem_cons]
        exact hvalid.trans (and_iff_right haccepted).symm
      · intro m w
        refine (hrejected m w).trans ?_
        constructor
        · rintro ⟨before, b, after, hsplit, hbefore, hw⟩
          refine ⟨(a, n) :: before, b, after, by rw [hsplit]; rfl, ?_, hw⟩
          exact List.forall_mem_cons.2 ⟨haccepted, hbefore⟩
        · rintro ⟨before, b, after, hsplit, hbefore, hw⟩
          cases before with
          | nil =>
            cases hsplit
            rw [(Check.findSome?_eq_some_iff hk hword).2 hw] at hv
            cases hv
          | cons first before =>
            obtain ⟨-, hsplit⟩ := List.cons.inj hsplit
            exact ⟨before, b, after, hsplit, (List.forall_mem_cons.1 hbefore).2, hw⟩

end Actions

namespace Verdict

/-- The verdict on actions, as many as a word can count. It tells that there are none, or that the
first one declares nothing; else it tells the first check that fails in the order of the steps, where
what a step may use depends on its number and on the names that the first one declares. -/
theorem ofActions_exact {actions : List Action} (h : actions.length < Text.wordLimit) :
    (ofActions actions = .noActions ↔ actions = []) ∧
    (ofActions actions = .noVariables ↔
      ∃ first rest, actions = first :: rest ∧ first.heading.declared = []) ∧
    ∀ first rest, actions = first :: rest → first.heading.declared ≠ [] →
      (ofActions actions = .valid ↔ ∀ numbered ∈ actions.zipIdx 1,
        numbered.1.Accepted first.heading.declared numbered.2) ∧
      ∀ n v, ofActions actions = .rejected n v ↔
        ∃ before a after, actions.zipIdx 1 = before ++ (a, n) :: after ∧
          (∀ numbered ∈ before, numbered.1.Accepted first.heading.declared numbered.2) ∧
          Check.FirstFault first.heading.declared n a.checks v := by
  cases actions with
  | nil => simp [ofActions]
  | cons first rest =>
    have hlast : 1 + (first :: rest).length ≤ Text.wordLimit := by omega
    by_cases hd : first.heading.declared = []
    · have hnone : ofActions (first :: rest) = .noVariables := by
        rw [ofActions, if_pos (List.isEmpty_iff.2 hd)]
      rw [hnone]
      refine ⟨by simp, by simp [hd], ?_⟩
      intro first' rest' heq hne
      cases heq
      exact absurd hd hne
    · have hfrom : ofActions (first :: rest) =
          verdictFrom first.heading.declared 1 (first :: rest) := by
        rw [ofActions, if_neg (by simpa using hd)]
      rw [hfrom]
      refine ⟨?_, ?_, ?_⟩
      · rcases verdictFrom_cases first.heading.declared 1 (first :: rest) with
          hvalid | ⟨i, a, known, v, -, -, hrejected⟩
        · simp [hvalid]
        · simp [hrejected]
      · rcases verdictFrom_cases first.heading.declared 1 (first :: rest) with
          hvalid | ⟨i, a, known, v, -, -, hrejected⟩
        · simp [hvalid, hd]
        · simp [hrejected, hd]
      · intro first' rest' heq _
        cases heq
        exact verdictFrom_iff (knows_start _) (Nat.le_refl 1) hlast

/-- A loop whose second text names a step by a number that does not fit into a word. -/
def longNumeral : Action :=
  .steps ⟨.loop (some "step_+1".toList) true, [], {}⟩
    [.text ⟨.default, [], {}⟩ "{{step_01}}".toList,
      .text ⟨.default, [], {}⟩ "{{step_18446744073709551617}}".toList]

theorem checks_longNumeral : longNumeral.checks =
    [.text "{{step_01}}".toList, .name "step_01".toList,
      .text "{{step_18446744073709551617}}".toList, .name "step_18446744073709551617".toList,
      .name "step_+1".toList] := by
  cbv

theorem not_isLegal_longNumeral :
    ¬Step.IsLegal ["a".toList] 2 "step_18446744073709551617".toList := by
  rintro (h | ⟨numeral, k, hname, ⟨digits, hd, -, -, hv⟩, -, hk⟩)
  · exact absurd h (by decide)
  · change Step.outputStem ++ '_' :: "18446744073709551617".toList = _ at hname
    have hnumeral : "18446744073709551617".toList = numeral :=
      (List.cons.inj (List.append_cancel_left hname)).2
    rw [← hnumeral] at hd
    rcases hd with rfl | hplus
    · have hvalue : Text.digitsValue "18446744073709551617".toList = 18446744073709551617 := by decide
      omega
    · cases hplus

theorem ofActions_exact_longNumeral :
    [Action.text ⟨.default, ["a".toList], {}⟩ "{{a}}".toList, longNumeral].length < Text.wordLimit ∧
      ofActions [.text ⟨.default, ["a".toList], {}⟩ "{{a}}".toList, longNumeral] =
        .rejected 2 .incorrectNumber := by
  have hfirst : (Action.text ⟨.default, ["a".toList], {}⟩ "{{a}}".toList).checks =
      [.text "{{a}}".toList, .name "a".toList] := by cbv
  have hzero : Step.IsLegal ["a".toList] 2 "step_01".toList :=
    Or.inr ⟨"01".toList, 1, rfl, ⟨"01".toList, by decide⟩, by decide⟩
  have hminus : '-' ∉ "18446744073709551617".toList := by decide
  refine ⟨by decide, (((ofActions_exact (by decide)).2.2 _ _ rfl (by decide)).2 _ _).2 ?_⟩
  refine ⟨[(_, 1)], longNumeral, [], rfl, ?_, [_, _, _], _, _, checks_longNumeral, ?_,
    not_isLegal_longNumeral, .incorrectNumber hminus⟩
  · intro numbered hm check hc
    rw [List.mem_singleton.1 hm, hfirst, List.mem_pair] at hc
    rcases hc with rfl | rfl
    · exact (by decide : Text.allBlank "{{a}}".toList = false)
    · exact Or.inl (by decide)
  · intro check hc
    simp only [List.mem_cons, List.not_mem_nil, or_false] at hc
    rcases hc with rfl | rfl | rfl
    · exact (by decide : Text.allBlank "{{step_01}}".toList = false)
    · exact hzero
    · exact (by decide : Text.allBlank "{{step_18446744073709551617}}".toList = false)

end Verdict

end PromptChain
