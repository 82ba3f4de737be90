import Mathlib.Data.List.Permutation
import PromptChain.Proofs.Compilation
import PromptChain.Proofs.OutputNames
import PromptChain.Proofs.Splitting

/-! Which names the steps of a compiled script use. -/
namespace PromptChain

/-- The names that an action uses: those in its texts, and the source of its list. -/
def Action.usedNames (a : Action) : List Text :=
  a.checkedTexts.flatMap Text.placeholders ++ a.heading.kind.source?.toList

namespace Step

/-- The name is `step_` and a numeral of `k`, which may have zeros or a plus sign before it. -/
def Spells (name : Text) (k : Nat) : Prop :=
  ∃ numeral, name = outputStem ++ '_' :: numeral ∧ Text.word? numeral = some k

def IsEarlier (n : Nat) (name : Text) : Prop :=
  ∃ k, 1 ≤ k ∧ k < n ∧ name = outputKey k

/-- The name has the number of a step before step `n`, in another spelling than that of its
output. -/
def IsMisspelled (n : Nat) (name : Text) : Prop :=
  ∃ k, 1 ≤ k ∧ k < n ∧ Spells name k ∧ name ≠ outputKey k

theorem IsMisspelled.not_isEarlier {n : Nat} {name : Text} (h : IsMisspelled n name) :
    ¬IsEarlier n name := by
  rintro ⟨j, -, -, hj⟩
  obtain ⟨k, -, -, ⟨numeral, hname, hword⟩, hne⟩ := h
  have hnumeral : Text.ofNat j = numeral := by
    rw [hj, outputKey] at hname
    exact (List.cons.inj (List.append_cancel_left hname)).2
  rw [← hnumeral] at hword
  rw [Text.eq_of_word?_ofNat hword] at hj
  exact hne hj

theorem IsMisspelled.head {n : Nat} {name : Text} (h : IsMisspelled n name) :
    ∃ numeral, name = outputStem ++ '_' :: numeral ∧
      (numeral.head? = some '0' ∨ numeral.head? = some '+') := by
  obtain ⟨k, -, -, ⟨numeral, hname, hword⟩, hne⟩ := h
  refine ⟨numeral, hname, ?_⟩
  by_contra hhead
  rw [not_or] at hhead
  rw [Text.eq_ofNat_of_word? hword hhead.1 hhead.2] at hname
  exact hne hname

end Step

/-- A name that may be used at a step is among the known ones, or it spells the number of an earlier
step. -/
theorem known_or_spells_of_nameViolation? {step : Nat} {known : List Text} {name : Text}
    (h : nameViolation? step known name = none) :
    name ∈ known ∨ ∃ k, 1 ≤ k ∧ k < step ∧ Step.Spells name k := by
  unfold nameViolation? at h
  split at h
  · next hk => exact Or.inl (by simpa using hk)
  · right
    split at h
    · cases h
    · next c number hd =>
      split_ifs at h with hminus hstem
      split at h
      · next index hword =>
        split_ifs at h with hb
        refine ⟨index, hb.1, hb.2, number, ?_, hword⟩
        have hc : c = '_' := by
          have hhead := List.head?_dropWhile_not (fun c => c != '_') name
          rw [hd] at hhead
          simpa using hhead
        have hsplit := List.takeWhile_append_dropWhile (p := fun c => c != '_') (l := name)
        rw [hd, hc] at hsplit
        rw [← hsplit, not_not.1 hstem]
      · cases h

theorem nameViolation?_of_violation? {step : Nat} {known : List Text} {a : Action}
    (h : a.violation? step known = none) {name : Text} (hn : name ∈ a.usedNames) :
    nameViolation? step known name = none := by
  rw [Action.violation?, Option.or_eq_none_iff] at h
  obtain ⟨htexts, hsource⟩ := h
  rcases List.mem_append.1 hn with hn | hn
  · obtain ⟨t, ht, hm⟩ := List.mem_flatMap.1 hn
    have hprompt := List.findSome?_eq_none_iff.1 htexts t ht
    unfold promptViolation? at hprompt
    split_ifs at hprompt
    exact List.findSome?_eq_none_iff.1 hprompt name hm
  · rw [Option.mem_toList.1 hn] at hsource
    exact hsource

theorem mem_addName {known : List Text} {name other : Text} (h : other ∈ addName known name) :
    other ∈ known ∨ other = name := by
  unfold addName at h
  split_ifs at h
  · exact Or.inl h
  · simpa using h

/-- At each step of actions without a violation, what is known beyond the names known at the start
are outputs of the steps between. -/
theorem violation?_of_verdictFrom {known : List Text} {n : Nat} {actions : List Action}
    (h : verdictFrom known n actions = .valid) {i : Nat} {a : Action}
    (ha : actions[i]? = some a) :
    ∃ known', a.violation? (n + i) known' = none ∧
      ∀ name ∈ known', name ∈ known ∨ ∃ k, n ≤ k ∧ k < n + i ∧ name = Step.outputKey k := by
  induction actions generalizing known n i with
  | nil => simp at ha
  | cons b rest ih =>
    unfold verdictFrom at h
    split at h
    · cases h
    · next hb =>
      cases i with
      | zero =>
        cases ha
        exact ⟨known, hb, fun name hm => Or.inl hm⟩
      | succ i =>
        -- What the next step knows beyond `known` is the output of this one.
        obtain ⟨known', hv, hk⟩ := ih h (by simpa using ha)
        have hshift : n + (i + 1) = n + 1 + i := by omega
        rw [hshift]
        refine ⟨known', hv, fun name hm => ?_⟩
        rcases hk name hm with hm | ⟨k, hnk, hkn, rfl⟩
        · rcases mem_addName hm with hm | rfl
          · exact Or.inl hm
          · exact Or.inr ⟨n, Nat.le_refl n, by omega, rfl⟩
        · exact Or.inr ⟨k, by omega, hkn, rfl⟩

namespace Script

variable {table : List Directive} {source : Text} {s : Script}

theorem node_of_compileWith (hs : compileWith table source = .ok s) {i : Nat} {node : Node}
    (hn : s.nodes[i]? = some node) :
    ∃ a, s.actions[i]? = some a ∧ Node.ofAction (1 + i) a = .ok node := by
  obtain ⟨-, -, -, -, hnodes⟩ := ofExpanded_eq_ok_iff.1 hs
  exact Node.action_of_ofActionsFrom hnodes hn

/-- Every name that a step of a compiled script uses is declared by the first step, or it is the
name of an earlier output, or another spelling of an earlier step's number. -/
theorem declared_or_earlier_or_misspelled (hs : compileWith table source = .ok s) {i : Nat}
    {a : Action} (ha : s.actions[i]? = some a) {name : Text} (hn : name ∈ a.usedNames) :
    name ∈ s.declared ∨ Step.IsEarlier (i + 1) name ∨ Step.IsMisspelled (i + 1) name := by
  obtain ⟨-, -, -, hvalid, hnodes⟩ := ofExpanded_eq_ok_iff.1 hs
  unfold Verdict.ofActions at hvalid
  split at hvalid
  · next hnil => simp [hnil] at ha
  · next first rest hactions =>
    split_ifs at hvalid
    rw [← hactions] at hvalid
    have hdeclared : s.declared = first.heading.declared := by
      rw [hactions] at hnodes
      simp only [Node.ofActions, Node.ofActionsFrom, Outcome.bind_eq_ok_iff,
        Outcome.pure_eq_ok_iff] at hnodes
      obtain ⟨node, hnode, nodes, -, heq⟩ := hnodes
      unfold declared
      rw [← heq]
      exact congrArg Heading.declared (Node.heading_of_ofAction hnode)
    obtain ⟨known, hv, hk⟩ := violation?_of_verdictFrom hvalid ha
    rw [hdeclared]
    rcases known_or_spells_of_nameViolation? (nameViolation?_of_violation? hv hn) with
      hm | ⟨k, h1, hlt, hspells⟩
    · rcases hk name hm with hm | ⟨k, h1, hlt, rfl⟩
      · exact Or.inl hm
      · exact Or.inr (Or.inl ⟨k, h1, by omega, rfl⟩)
    · by_cases he : name = Step.outputKey k
      · exact Or.inr (Or.inl ⟨k, h1, by omega, he⟩)
      · exact Or.inr (Or.inr ⟨k, h1, by omega, hspells, he⟩)

/-- A name that a step of a compiled script uses is a required input or the name of an earlier
output, with two exceptions: the first step declares names in the shape of an output's name, which
all steps may use, and the number of an earlier step may be spelled with zeros or a plus sign. -/
theorem required_or_earlier_iff (hs : compileWith table source = .ok s) {i : Nat} {a : Action}
    (ha : s.actions[i]? = some a) {name : Text} (hn : name ∈ a.usedNames) :
    name ∈ s.requiredInputs ∨ Step.IsEarlier (i + 1) name ↔
      ¬(name ∈ s.declared ∧ Step.isReference name = true ∧ ¬Step.IsEarlier (i + 1) name) ∧
        ¬(name ∉ s.declared ∧ Step.IsMisspelled (i + 1) name) := by
  have hrequired : name ∈ s.requiredInputs ↔ name ∈ s.declared ∧ Step.isReference name = false := by
    rw [requiredInputs_eq, List.mem_filter]
    simp
  rw [hrequired]
  constructor
  · rintro (⟨hd, hr⟩ | he)
    · refine ⟨?_, fun hm => hm.1 hd⟩
      rintro ⟨-, hr', -⟩
      rw [hr] at hr'
      cases hr'
    · exact ⟨fun hf => hf.2.2 he, fun hm => hm.2.not_isEarlier he⟩
  · rintro ⟨hforward, hmisspelled⟩
    rcases declared_or_earlier_or_misspelled hs ha hn with hd | he | hm
    · cases hr : Step.isReference name with
      | false => exact Or.inl ⟨hd, rfl⟩
      | true =>
        right
        by_contra he
        exact hforward ⟨hd, hr, he⟩
    · exact Or.inr he
    · by_cases hd : name ∈ s.declared
      · cases hr : Step.isReference name with
        | false => exact Or.inl ⟨hd, rfl⟩
        | true => exact absurd ⟨hd, hr, hm.not_isEarlier⟩ hforward
      · exact absurd ⟨hd, hm⟩ hmisspelled

/-- A script whose second step uses its own output. The first step is a loop over `x`, and the text
around the loop declares the name of that output. -/
def selfReferring : Script where
  source := "{{step_2}}\nACTION: Loop\nForEveryItemDoThis: {{x}}->>>>{{step_2}}".toList
  steps :=
    [⟨1, "{{step_2}}\nACTION: Loop\nForEveryItemDoThis: {{x}}".toList⟩, ⟨2, "{{step_2}}".toList⟩]
  actions :=
    [.text ⟨.loop (some "x".toList) true, ["step_2".toList, "x".toList], {}⟩ "{{x}}".toList,
      .text ⟨.default, ["step_2".toList], {}⟩ "{{step_2}}".toList]
  nodes :=
    [.leaf ⟨.loop (some "x".toList) true, ["step_2".toList, "x".toList], {}⟩
        ["step_2".toList, "x".toList] "{{x}}".toList,
      .leaf ⟨.default, ["step_2".toList], {}⟩ ["step_2".toList] "{{step_2}}".toList]

theorem split_selfReferring : Step.split selfReferring.source = selfReferring.steps := by
  have hcut : Step.cut selfReferring.source =
      ["{{step_2}}\nACTION: Loop\nForEveryItemDoThis: {{x}}".toList, "{{step_2}}".toList] := by
    have hsource : selfReferring.source =
        "{{step_2}}\nACTION: Loop\nForEveryItemDoThis: {{x}}".toList ++
          (Step.separator ++ "{{step_2}}".toList) := by
      decide
    rw [hsource, Step.cut_append_separator (by decide), Step.cut_eq_singleton (by decide)]
  rw [Step.split, hcut]
  decide

set_option maxRecDepth 4000 in
theorem action_selfReferring :
    Step.action ⟨1, "{{step_2}}\nACTION: Loop\nForEveryItemDoThis: {{x}}".toList⟩ =
      .ok (.text ⟨.loop (some "x".toList) true, ["step_2".toList, "x".toList], {}⟩
        "{{x}}".toList) := by
  have hmany : manyItems? "{{step_2}}\nACTION: Loop\nForEveryItemDoThis: {{x}}".toList = none := by
    decide
  simp only [Step.action, hmany]
  cbv

theorem second_action_selfReferring : Step.action ⟨2, "{{step_2}}".toList⟩ =
    .ok (.text ⟨.default, ["step_2".toList], {}⟩ "{{step_2}}".toList) := by
  cbv

theorem compile_selfReferring : compile selfReferring.source = .ok selfReferring :=
  compile_eq_ok (by decide) (by cbv) split_selfReferring
    (Action.ofSteps_cons action_selfReferring (Action.ofSteps_cons second_action_selfReferring rfl))
    (by cbv) (by cbv)

theorem required_or_earlier_iff_selfReferring :
    compileWith Directive.standard selfReferring.source = .ok selfReferring ∧
      ∃ a, selfReferring.actions[1]? = some a ∧ "step_2".toList ∈ a.usedNames ∧
        ("step_2".toList ∈ selfReferring.requiredInputs ∨ Step.IsEarlier 2 "step_2".toList ↔
          ¬("step_2".toList ∈ selfReferring.declared ∧ Step.isReference "step_2".toList = true ∧
              ¬Step.IsEarlier 2 "step_2".toList) ∧
            ¬("step_2".toList ∉ selfReferring.declared ∧
              Step.IsMisspelled 2 "step_2".toList)) := by
  have hn : "step_2".toList ∈
      (Action.text ⟨.default, ["step_2".toList], {}⟩ "{{step_2}}".toList).usedNames := by
    rw [show Action.usedNames _ = ["step_2".toList] by cbv]
    exact List.mem_singleton_self _
  exact ⟨compile_selfReferring, _, rfl, hn, required_or_earlier_iff compile_selfReferring rfl hn⟩

/-- A step may use its own output if the first step declares the name, although no value can be
supplied for it. -/
theorem self_reference_accepted :
    ∃ s a, compile "{{step_2}}\nACTION: Loop\nForEveryItemDoThis: {{x}}->>>>{{step_2}}".toList =
        .ok s ∧
      s.actions[1]? = some a ∧ "step_2".toList ∈ a.usedNames ∧
        "step_2".toList ∉ s.requiredInputs ∧ ¬Step.IsEarlier 2 "step_2".toList := by
  refine ⟨selfReferring, _, compile_selfReferring, rfl, ?_, ?_, ?_⟩
  · rw [show Action.usedNames _ = ["step_2".toList] by cbv]
    exact List.mem_singleton_self _
  · rw [show selfReferring.requiredInputs = ["x".toList] by cbv]
    decide
  · rintro ⟨k, h1, hk, h⟩
    obtain rfl : k = 1 := by omega
    revert h
    decide

end Script

end PromptChain
