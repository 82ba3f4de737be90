import Mathlib.Logic.Basic
import Mathlib.Tactic.SplitIfs
import PromptChain.Script
import PromptChain.Proofs.Outcome

/-! What a compiled script is made of: its stages, and its nodes as the actions at their places. -/
namespace PromptChain

namespace Directive

/-- A text in which no token stands is not changed. -/
theorem replace_eq_self {tokens : List Text} {expand : Text → Text} {t : Text}
    (h : ∀ token ∈ tokens, Text.has token t = false) : replace tokens expand t = t := by
  fun_induction replace tokens expand t with
  | case1 t token rest hl ih =>
    obtain ⟨hm, -, ht⟩ := of_leading? hl
    have hhas := Text.has_of_after? (Text.after?_eq_some_iff.2 ht)
    rw [h token hm] at hhas
    cases hhas
  | case2 => rfl
  | case3 c rest hl ih =>
    have hrest : ∀ token ∈ tokens, Text.has token rest = false := by
      intro token ht
      have hc := h token ht
      rw [Text.has, Bool.or_eq_false_iff] at hc
      exact hc.2
    rw [ih hrest]

theorem expand_eq_tidy {table : List Directive} {t : Text}
    (h : ∀ d ∈ table, Text.has d.token t = false) : expand table t = tidy t := by
  have htokens : ∀ token ∈ tokens table, Text.has token t = false := by
    intro token ht
    obtain ⟨d, hd, rfl⟩ := exists_of_mem_tokens ht
    exact h d hd
  rw [expand, replace_eq_self htokens]

/-- Every standard directive is written with two hyphens, so that a text without them has none. -/
theorem expand_standard_eq_tidy {t : Text} (h : Text.has ['-', '-'] t = false) :
    expand standard t = tidy t := by
  have hhyphens : ∀ d ∈ standard, Text.has ['-', '-'] d.token = true := by decide
  apply expand_eq_tidy
  intro d hd
  rw [← Bool.not_eq_true]
  intro htoken
  rw [Text.has_trans (hhyphens d hd) htoken] at h
  cases h

end Directive

theorem Action.ofSteps_cons {s : Step} {steps : List Step} {a : Action} {actions : List Action}
    (ha : s.action = .ok a) (hr : ofSteps steps = .ok actions) :
    ofSteps (s :: steps) = .ok (a :: actions) := by
  rw [ofSteps] at hr ⊢
  rw [List.mapM_cons, ha, hr]
  rfl

namespace Script

/-- A source is a script if each stage succeeds and the verdict on its actions is that they are
valid. -/
theorem ofExpanded_eq_ok_iff {source : Text} {s : Script} :
    ofExpanded source = .ok s ↔
      s.source = source ∧ s.steps = Step.split source ∧
        Action.ofSteps s.steps = .ok s.actions ∧ Verdict.ofActions s.actions = .valid ∧
          Node.ofActions s.actions = .ok s.nodes := by
  unfold ofExpanded
  simp only [Outcome.bind_eq_ok_iff, Outcome.mapError_eq_ok_iff]
  constructor
  · rintro ⟨actions, ha, h⟩
    by_cases hv : Verdict.ofActions actions = .valid
    · rw [if_neg (not_not.2 hv)] at h
      obtain ⟨nodes, hn, h⟩ := Outcome.bind_eq_ok_iff.1 h
      cases h
      exact ⟨rfl, rfl, ha, hv, Outcome.mapError_eq_ok_iff.1 hn⟩
    · rw [if_pos hv] at h
      cases h
  · rintro ⟨hs, ht, ha, hv, hn⟩
    obtain ⟨t, steps, actions, nodes⟩ := s
    simp only at hs ht ha hv hn
    subst hs ht
    refine ⟨actions, ha, ?_⟩
    rw [if_neg (not_not.2 hv)]
    exact Outcome.bind_eq_ok_iff.2 ⟨nodes, Outcome.mapError_eq_ok_iff.2 hn, rfl⟩

/-- A tidy source without two hyphens side by side is compiled to the script that its stages give. -/
theorem compile_eq_ok {s : Script} (hhyphens : Text.has ['-', '-'] s.source = false)
    (htidy : Directive.tidy s.source = s.source) (hsteps : Step.split s.source = s.steps)
    (hactions : Action.ofSteps s.steps = .ok s.actions)
    (hverdict : Verdict.ofActions s.actions = .valid)
    (hnodes : Node.ofActions s.actions = .ok s.nodes) : compile s.source = .ok s := by
  rw [compile, compileWith, Directive.expand_standard_eq_tidy hhyphens, htidy]
  exact ofExpanded_eq_ok_iff.2 ⟨rfl, hsteps.symm, hactions, hverdict, hnodes⟩

def declared (s : Script) : List Text :=
  match s.nodes with
  | [] => []
  | first :: _ => first.heading.declared

theorem requiredInputs_eq (s : Script) :
    s.requiredInputs = s.declared.filter fun name => !Step.isReference name := by
  unfold requiredInputs declared Node.requiredInputs
  cases s.nodes <;> rfl

end Script

namespace Node

theorem heading_of_ofAction {step : Nat} {a : Action} {node : Node}
    (h : ofAction step a = .ok node) : node.heading = a.heading := by
  cases a with
  | text heading body =>
    cases h
    rfl
  | steps heading children =>
    unfold ofAction at h
    split_ifs at h
    simp only [Outcome.bind_eq_ok_iff, Outcome.pure_eq_ok_iff] at h
    obtain ⟨nodes, -, rfl⟩ := h
    rfl

theorem text_of_ofAction {step : Nat} {a : Action} {heading : Heading} {references : List Text}
    {text : Text} (h : ofAction step a = .ok (.leaf heading references text)) :
    a = .text heading text := by
  cases a with
  | text heading' body =>
    cases h
    rfl
  | steps heading' children =>
    unfold ofAction at h
    split_ifs at h
    simp only [Outcome.bind_eq_ok_iff, Outcome.pure_eq_ok_iff] at h
    obtain ⟨nodes, -, hn⟩ := h
    cases hn

/-- Each node is made of the action at its place. -/
theorem action_of_ofActionsFrom {step : Nat} {actions : List Action} {nodes : List Node}
    (h : ofActionsFrom step actions = .ok nodes) {i : Nat} {node : Node}
    (hi : nodes[i]? = some node) :
    ∃ a, actions[i]? = some a ∧ ofAction (step + i) a = .ok node := by
  induction actions generalizing step nodes i with
  | nil =>
    cases h
    simp at hi
  | cons a rest ih =>
    simp only [ofActionsFrom, Outcome.bind_eq_ok_iff, Outcome.pure_eq_ok_iff] at h
    obtain ⟨first, hfirst, others, hothers, rfl⟩ := h
    cases i with
    | zero =>
      cases hi
      exact ⟨a, rfl, hfirst⟩
    | succ i =>
      obtain ⟨b, hb, hn⟩ := ih hothers (by simpa using hi)
      have hshift : step + (i + 1) = step + 1 + i := by omega
      exact ⟨b, by simpa using hb, hshift ▸ hn⟩

end Node

end PromptChain
