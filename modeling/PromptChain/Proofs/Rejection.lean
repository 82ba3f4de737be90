import PromptChain.Proofs.Extension
import PromptChain.Proofs.Extraction
import PromptChain.Proofs.RunFailure

/-! Why a source is no script: only the steps after the first can be found at fault, and no script has
a node that cannot be run. -/
namespace PromptChain

theorem nameViolation?_ne_emptyText (step : Nat) (known : List Text) (name : Text) :
    nameViolation? step known name ≠ some .emptyText := by
  intro h
  unfold nameViolation? at h
  split at h
  · cases h
  · split at h
    · cases h
    · split at h
      · cases h
      · split at h
        · cases h
        · split at h
          · split at h
            · cases h
            · cases h
          · cases h

namespace Action

theorem violation?_of_allBlank {step : Nat} {known : List Text} {heading : Heading} {body : Text}
    (h : body.allBlank = true) :
    (text heading body).violation? step known = some .emptyText := by
  simp [violation?, checkedTexts, promptViolation?, h]

/-- A text that is not blank fails for one of the names that it uses. -/
theorem exists_nameViolation? {step : Nat} {known : List Text} {heading : Heading} {body : Text}
    {v : Violation} (hb : body.allBlank = false)
    (h : (text heading body).violation? step known = some v) :
    ∃ name ∈ (text heading body).usedNames, nameViolation? step known name = some v := by
  rw [violation?, Option.or_eq_some_iff] at h
  rcases h with h | ⟨-, h⟩
  · rw [checkedTexts, List.findSome?_singleton, promptViolation?, hb] at h
    obtain ⟨name, hn, hv⟩ := List.exists_of_findSome?_eq_some h
    exact ⟨name, by simp [usedNames, checkedTexts, hn], hv⟩
  · obtain ⟨name, hn, hv⟩ := Option.bind_eq_some_iff.1 h
    exact ⟨name, by simp [usedNames, hn], hv⟩

theorem violation?_eq_emptyText_iff {step : Nat} {known : List Text} {heading : Heading}
    {body : Text} {v : Violation} (h : (text heading body).violation? step known = some v) :
    v = .emptyText ↔ body.allBlank = true := by
  constructor
  · rintro rfl
    by_contra hb
    obtain ⟨name, -, hv⟩ := exists_nameViolation? (Bool.eq_false_iff.2 hb) h
    exact nameViolation?_ne_emptyText step known name hv
  · intro hb
    rw [violation?_of_allBlank hb] at h
    exact (Option.some.inj h).symm

theorem step_of_ofSteps {steps : List Step} {actions : List Action}
    (h : ofSteps steps = .ok actions) {i : Nat} {a : Action} (hi : actions[i]? = some a) :
    ∃ s, steps[i]? = some s ∧ s.action = .ok a := by
  induction steps generalizing actions i with
  | nil =>
    cases h
    simp at hi
  | cons s steps ih =>
    rw [ofSteps, List.mapM_cons] at h
    obtain ⟨first, hfirst, h⟩ := Outcome.bind_eq_ok_iff.1 h
    obtain ⟨others, hothers, h⟩ := Outcome.bind_eq_ok_iff.1 h
    cases h
    cases i with
    | zero =>
      cases hi
      exact ⟨s, rfl, hfirst⟩
    | succ i => exact ih hothers hi

theorem eq_text_of_ofSteps {steps : List Step} {actions : List Action}
    (h : ofSteps steps = .ok actions) : ∀ a ∈ actions, ∃ heading body, a = .text heading body := by
  intro a ha
  obtain ⟨i, hi⟩ := List.getElem?_of_mem ha
  obtain ⟨s, -, hs⟩ := step_of_ofSteps h hi
  obtain ⟨kind, body, rfl, -⟩ := Step.action_eq_ok hs
  exact ⟨_, body, rfl⟩

end Action

/-- Actions are valid from step `n` on, or one of them is found at fault. -/
theorem verdictFrom_cases (known : List Text) (n : Nat) (actions : List Action) :
    verdictFrom known n actions = .valid ∨ ∃ i a known' v,
      actions[i]? = some a ∧ a.violation? (n + i) known' = some v ∧
        verdictFrom known n actions = .rejected (n + i) v := by
  induction actions generalizing known n with
  | nil => exact Or.inl rfl
  | cons a rest ih =>
    rw [verdictFrom]
    cases hv : a.violation? n known with
    | some v => exact Or.inr ⟨0, a, known, v, rfl, hv, rfl⟩
    | none =>
      rcases ih (addName known (Step.outputKey n)) (n + 1) with h | ⟨i, b, known', v, hb, hv', h⟩
      · exact Or.inl h
      · have hshift : n + 1 + i = n + (i + 1) := by omega
        rw [hshift] at hv' h
        exact Or.inr ⟨i + 1, b, known', v, hb, hv', h⟩

theorem Step.getElem?_split {t : Text} {i : Nat} {s : Step} (h : (split t)[i]? = some s) :
    s.index = i + 1 ∧ s.text ∈ texts t := by
  rw [split_eq, List.getElem?_map, List.getElem?_zipIdx] at h
  simp only [Option.map_map, Option.map_eq_some_iff] at h
  obtain ⟨text, ht, rfl⟩ := h
  exact ⟨Nat.add_comm 1 i, List.mem_of_getElem? ht⟩

/-- A first step with variables is never at fault: its action uses no names but these. -/
theorem Step.violation?_declared {s : Step} {a : Action} (ht : s.text.Tidied)
    (h : s.action = .ok a) (hd : a.heading.declared.isEmpty = false) (n : Nat) :
    a.violation? n a.heading.declared = none := by
  obtain ⟨heading, body, rfl, hdeclared, hblank⟩ := allBlank_of_action ht h
  have hb : body.allBlank = false := by
    rw [Bool.eq_false_iff]
    intro hb
    have hnil : Text.declared [] = [] := by cbv
    rw [Action.heading, hdeclared, hblank.1 hb, hnil] at hd
    cases hd
  rw [Option.eq_none_iff_forall_ne_some]
  intro v hv
  obtain ⟨name, hn, hname⟩ := Action.exists_nameViolation? hb hv
  have hknown := declared_of_mem_usedNames h hn
  rw [nameViolation?, if_pos (List.contains_iff_mem.2 hknown)] at hname
  cases hname

/-- Each action is read from the step at its place, which has a tidied text. -/
theorem Action.exists_step_of_tidy {source : Text} {actions : List Action}
    (h : ofSteps (Step.split (Directive.tidy source)) = .ok actions) {i : Nat} {a : Action}
    (hi : actions[i]? = some a) :
    ∃ text, (Step.split (Directive.tidy source))[i]? = some ⟨i + 1, text⟩ ∧ text.Tidied ∧
      Step.action ⟨i + 1, text⟩ = .ok a := by
  obtain ⟨⟨index, text⟩, hs, ha⟩ := step_of_ofSteps h hi
  obtain ⟨rfl, hmem⟩ := Step.getElem?_split hs
  exact ⟨text, hs, Step.tidied_of_mem_texts hmem, ha⟩

/-- The verdict on the steps of a tidied source: a step at fault comes after the first one. -/
theorem Verdict.ofActions_cases {source : Text} {actions : List Action}
    (h : Action.ofSteps (Step.split (Directive.tidy source)) = .ok actions) :
    ofActions actions = .valid ∨ ofActions actions = .noVariables ∨
      ∃ n text v, 2 ≤ n ∧ (Step.split (Directive.tidy source))[n - 1]? = some ⟨n, text⟩ ∧
        (v = .emptyText ↔ text = []) ∧ ofActions actions = .rejected n v := by
  cases actions with
  | nil => exact absurd rfl (Action.ofSteps_ne_nil (Step.split_ne_nil _) h)
  | cons first rest =>
    by_cases hd : first.heading.declared.isEmpty = true
    · rw [ofActions, if_pos hd]
      exact Or.inr (Or.inl rfl)
    · rw [ofActions, if_neg hd, verdictFrom]
      obtain ⟨text, -, ht, hfirst⟩ := Action.exists_step_of_tidy h (List.getElem?_cons_zero)
      rw [Step.violation?_declared ht hfirst (Bool.eq_false_iff.2 hd)]
      dsimp only
      rcases verdictFrom_cases (addName first.heading.declared (Step.outputKey 1)) (1 + 1) rest with
        hvalid | ⟨i, a, known, v, hi, hv, hrejected⟩
      · exact Or.inl hvalid
      · obtain ⟨text, hstep, ht, ha⟩ :=
          Action.exists_step_of_tidy h ((List.getElem?_cons_succ).trans hi)
        obtain ⟨heading, body, rfl, -, hblank⟩ := Step.allBlank_of_action ht ha
        have hindex : 1 + 1 + i = i + 1 + 1 := by omega
        refine Or.inr (Or.inr ⟨1 + 1 + i, text, v, by omega, ?_, ?_, hrejected⟩)
        · rw [hindex]
          exact hstep
        · rw [Action.violation?_eq_emptyText_iff hv]
          exact hblank

namespace Script

/-- A source that is no script fails in one of the three stages. -/
theorem ofExpanded_eq_error {source : Text} {e : CompileError} (h : ofExpanded source = .error e) :
    (∃ cause, e = .unknownAction cause) ∨
      ∃ actions, Action.ofSteps (Step.split source) = .ok actions ∧
        (Verdict.ofActions actions ≠ .valid ∧ e = .rejected (Verdict.ofActions actions) ∨
          ∃ cause, Node.ofActions actions = .error cause ∧ e = .loopWithSteps cause) := by
  unfold ofExpanded at h
  simp only [Outcome.bind_eq_error_iff, Outcome.mapError_eq_error_iff] at h
  rcases h with ⟨cause, -, rfl⟩ | ⟨actions, hactions, h⟩
  · exact Or.inl ⟨cause, rfl⟩
  · refine Or.inr ⟨actions, Outcome.mapError_eq_ok_iff.1 hactions, ?_⟩
    by_cases hv : Verdict.ofActions actions = .valid
    · rw [if_neg (not_not.2 hv)] at h
      simp only [Outcome.bind_eq_error_iff, Outcome.mapError_eq_error_iff] at h
      rcases h with ⟨cause, hcause, rfl⟩ | ⟨nodes, -, h⟩
      · exact Or.inr ⟨cause, hcause, rfl⟩
      · cases h
    · rw [if_pos hv] at h
      cases h
      exact Or.inl ⟨hv, rfl⟩

end Script

namespace Node

theorem exists_ofActionsFrom {actions : List Action} (step : Nat)
    (h : ∀ a ∈ actions, ∃ heading body, a = .text heading body) :
    ∃ nodes, ofActionsFrom step actions = .ok nodes ∧
      ∀ node ∈ nodes, ∃ heading references text, node = .leaf heading references text := by
  induction actions generalizing step with
  | nil => exact ⟨[], rfl, by simp⟩
  | cons a rest ih =>
    obtain ⟨heading, body, rfl⟩ := h a List.mem_cons_self
    obtain ⟨nodes, hnodes, hleaves⟩ := ih (step + 1) fun b hb => h b (List.mem_cons_of_mem _ hb)
    refine ⟨.leaf heading (nameSet (body.placeholders ++ heading.declared)) body :: nodes, ?_, ?_⟩
    · rw [ofActionsFrom, hnodes]
      rfl
    · intro node hn
      rcases List.mem_cons.1 hn with rfl | hn
      · exact ⟨_, _, _, rfl⟩
      · exact hleaves node hn

end Node

/-- The number of a step can be read off a code that starts with the name of its output. -/
theorem Step.eq_of_outputKey_append {n m : Nat} {s t : Text}
    (h : outputKey n ++ '_' :: s = outputKey m ++ '_' :: t) : n = m := by
  have hnumbers : Text.ofNat n ++ '_' :: s = Text.ofNat m ++ '_' :: t := by
    simpa [outputKey] using h
  have hstop : ∀ k, ∀ c ∈ Text.ofNat k, (c != '_') = true := by
    intro k c hc
    rw [bne_iff_ne]
    rintro rfl
    exact Text.underscore_notMem_ofNat k hc
  have hcut := congrArg (List.takeWhile (· != '_')) hnumbers
  rw [List.takeWhile_append_of_pos (hstop n), List.takeWhile_append_of_pos (hstop m)] at hcut
  exact Text.ofNat_injective (by simpa using hcut)

theorem Violation.code_eq_emptyText_iff {v : Violation} :
    v.code = emptyText.code ↔ v = .emptyText := by
  cases v <;> decide

theorem Cause.eq_branch_of_code {c : Cause} (h : c.code = branch.code) : c = .branch := by
  cases c with
  | branch => rfl
  | _ =>
    unfold code at h
    exact absurd (String.toList_injective h) (by decide)

namespace Script

variable {table : List Directive} {source : Text}

/-- Why a source is no script. -/
theorem compileWith_eq_error {e : CompileError} (h : compileWith table source = .error e) :
    (∃ cause, e = .unknownAction cause) ∨ e = .rejected .noVariables ∨
      ∃ n text v, 2 ≤ n ∧
        (Step.split (Directive.expand table source))[n - 1]? = some ⟨n, text⟩ ∧
          (v = .emptyText ↔ text = []) ∧ e = .rejected (.rejected n v) := by
  rcases ofExpanded_eq_error h with hunknown | ⟨actions, hactions, h⟩
  · exact Or.inl hunknown
  · rcases h with ⟨hv, rfl⟩ | ⟨cause, hcause, -⟩
    · rcases Verdict.ofActions_cases hactions with h | h | ⟨n, text, v, hn, hstep, hempty, h⟩
      · exact absurd h hv
      · exact Or.inr (Or.inl (congrArg CompileError.rejected h))
      · exact Or.inr (Or.inr ⟨n, text, v, hn, hstep, hempty, congrArg CompileError.rejected h⟩)
    · obtain ⟨nodes, hnodes, -⟩ := Node.exists_ofActionsFrom 1 (Action.eq_text_of_ofSteps hactions)
      rw [Node.ofActions, hnodes] at hcause
      cases hcause

/-- All nodes of a script are prompts and loops. -/
theorem leaf_of_compileWith {s : Script} (h : compileWith table source = .ok s) :
    ∀ node ∈ s.nodes, ∃ heading references text, node = .leaf heading references text := by
  obtain ⟨-, -, hactions, -, hnodes⟩ := ofExpanded_eq_ok_iff.1 h
  obtain ⟨nodes, hok, hleaves⟩ := Node.exists_ofActionsFrom 1 (Action.eq_text_of_ofSteps hactions)
  rw [Node.ofActions, hok] at hnodes
  cases hnodes
  exact hleaves

theorem cause_ne_branch {s : Script} (h : compileWith table source = .ok s) {earlier : List Text}
    {environment : Environment} {p : Provider} {f : Failure}
    (hf : ((Run.start earlier environment).runNodes p s.nodes).failure = some f) :
    f.cause ≠ .branch := by
  obtain ⟨done, node, rest, hnodes, hdone, hrun⟩ := Run.exists_failing_node rfl hf
  rw [Run.runNodes, ← hrun] at hf
  intro hcause
  have hfails := (Run.runNode_fails hdone hf).2
  rw [hcause] at hfails
  obtain ⟨heading, references, children, hbranch⟩ := hfails
  have hmem : node ∈ s.nodes := by simp [hnodes]
  obtain ⟨_, _, _, hleaf⟩ := leaf_of_compileWith h node hmem
  rw [hbranch] at hleaf
  cases hleaf

/-- The failures that a source and the script made of it can show. A source fails for an unknown
action, for want of variables in the first step, or at a later step, and there for an empty text if
the step has no text. No run of a script fails for the kind of a node's content. -/
theorem failure_codes (table : List Directive) (source : Text) :
    (∀ e, compileWith table source = .error e →
      (e.diagnostic.code = "ACTION_KIND_UNKNOWN".toList ∨
        e.diagnostic.code = "no_vars_in_first_step".toList ∨
        ∃ n text v, 2 ≤ n ∧ n ≤ (Step.split (Directive.expand table source)).length ∧
          (Step.split (Directive.expand table source))[n - 1]? = some ⟨n, text⟩ ∧
          e.diagnostic.code = Step.outputKey n ++ '_' :: Violation.code v ∧
          (v.code = "empty_string".toList ↔ text = [])) ∧
      e.diagnostic.code ≠ "no_actions".toList ∧
      (∀ reason, e.diagnostic.code ≠ Step.outputKey 1 ++ '_' :: reason) ∧
      e.diagnostic.code ≠ "AST_LOOP_BODY_INVALID".toList) ∧
    ∀ s, compileWith table source = .ok s → ∀ earlier environment p f,
      ((Run.start earlier environment).runNodes p s.nodes).failure = some f →
        f.diagnostic.code ≠ "ENGINE_NODE_CONTENT_UNSUPPORTED".toList := by
  constructor
  · intro e he
    rcases compileWith_eq_error he with ⟨cause, rfl⟩ | rfl | ⟨n, text, v, hn, hstep, hempty, rfl⟩
    · have hcode : (CompileError.unknownAction cause).diagnostic.code =
          "ACTION_KIND_UNKNOWN".toList := rfl
      rw [hcode]
      refine ⟨Or.inl rfl, by decide, ?_, by decide⟩
      intro reason h
      cases h
    · refine ⟨Or.inr (Or.inl rfl), by decide, ?_, by decide⟩
      intro reason h
      cases h
    · have hlength : n - 1 < (Step.split (Directive.expand table source)).length :=
        (List.getElem?_eq_some_iff.1 hstep).1
      refine ⟨Or.inr (Or.inr ⟨n, text, v, hn, by omega, hstep, rfl, ?_⟩), ?_, ?_, ?_⟩
      · exact Violation.code_eq_emptyText_iff.trans hempty
      · intro h
        cases h
      · intro reason h
        have := Step.eq_of_outputKey_append h
        omega
      · intro h
        cases h
  · intro s hs earlier environment p f hf
    exact fun hcode => cause_ne_branch hs hf (Cause.eq_branch_of_code hcode)

theorem failure_codes_emptyStep :
    compileWith [] "{{a}}->>>>\n".toList = .error (.rejected (.rejected 2 .emptyText)) ∧
      (∀ reason, (CompileError.rejected (.rejected 2 .emptyText)).diagnostic.code ≠
        Step.outputKey 1 ++ '_' :: reason) ∧
      compileWith Directive.standard selfReferring.source = .ok selfReferring ∧
      ∃ f, ((Run.start [] ∅).runNodes .echo selfReferring.nodes).failure = some f ∧
        f.diagnostic.code ≠ "ENGINE_NODE_CONTENT_UNSUPPORTED".toList := by
  have hexpand : Directive.expand [] "{{a}}->>>>\n".toList =
      "{{a}}".toList ++ (Step.separator ++ []) := by cbv
  have hsplit : Step.split ("{{a}}".toList ++ (Step.separator ++ [])) =
      [⟨1, "{{a}}".toList⟩, ⟨2, []⟩] := by
    rw [Step.split, Step.cut_append_separator (by decide), Step.cut_eq_singleton (by decide)]
    decide
  have hempty : compileWith [] "{{a}}->>>>\n".toList =
      .error (.rejected (.rejected 2 .emptyText)) := by
    rw [compileWith, hexpand, ofExpanded, hsplit]
    cbv
  have hunbound : ((Run.start [] ∅).runNodes .echo selfReferring.nodes).failure =
      some ⟨1, .loop (some "x".toList) true, .unboundSource "x".toList⟩ := by decide +kernel
  exact ⟨hempty, ((failure_codes [] _).1 _ hempty).2.2.1, compile_selfReferring, _, hunbound,
    (failure_codes _ _).2 _ compile_selfReferring [] ∅ .echo _ hunbound⟩

end Script

end PromptChain
