import PromptChain.Proofs.CommitLog
import PromptChain.Proofs.Expansion
import PromptChain.Proofs.Scope

/-! Scripts with more steps at their end: the steps before them are compiled and run the same. -/
namespace PromptChain

theorem Action.ofSteps_append {steps more : List Step} {actions : List Action}
    (h : ofSteps (steps ++ more) = .ok actions) :
    ∃ front back, ofSteps steps = .ok front ∧ ofSteps more = .ok back ∧ actions = front ++ back := by
  unfold ofSteps at h ⊢
  rw [List.mapM_append, Outcome.bind_eq_ok_iff] at h
  obtain ⟨front, hfront, h⟩ := h
  obtain ⟨back, hback, h⟩ := Outcome.bind_eq_ok_iff.1 h
  exact ⟨front, back, hfront, hback, (Outcome.pure_eq_ok_iff.1 h).symm⟩

theorem Action.ofSteps_ne_nil {steps : List Step} {actions : List Action} (hs : steps ≠ [])
    (h : ofSteps steps = .ok actions) : actions ≠ [] := by
  cases steps with
  | nil => exact absurd rfl hs
  | cons step steps =>
    rw [ofSteps, List.mapM_cons] at h
    obtain ⟨a, -, h⟩ := Outcome.bind_eq_ok_iff.1 h
    obtain ⟨others, -, h⟩ := Outcome.bind_eq_ok_iff.1 h
    cases h
    exact List.cons_ne_nil a others

theorem verdictFrom_append {known : List Text} {n : Nat} {front back : List Action}
    (h : verdictFrom known n (front ++ back) = .valid) : verdictFrom known n front = .valid := by
  induction front generalizing known n with
  | nil => rfl
  | cons a front ih =>
    rw [List.cons_append, verdictFrom] at h
    rw [verdictFrom]
    cases hv : a.violation? n known with
    | some violation =>
      rw [hv] at h
      cases h
    | none =>
      rw [hv] at h
      exact ih h

theorem Verdict.ofActions_append {front back : List Action} (hne : front ≠ [])
    (h : ofActions (front ++ back) = .valid) : ofActions front = .valid := by
  cases front with
  | nil => exact absurd rfl hne
  | cons first front =>
    rw [List.cons_append, ofActions, ← List.cons_append] at h
    rw [ofActions]
    split_ifs at h ⊢
    exact verdictFrom_append h

namespace Node

theorem ofActionsFrom_append {step : Nat} {front back : List Action} {nodes : List Node}
    (h : ofActionsFrom step (front ++ back) = .ok nodes) :
    ∃ done rest, ofActionsFrom step front = .ok done ∧ done.length = front.length ∧
      nodes = done ++ rest := by
  induction front generalizing step nodes with
  | nil => exact ⟨[], nodes, rfl, rfl, rfl⟩
  | cons a front ih =>
    simp only [List.cons_append, ofActionsFrom, Outcome.bind_eq_ok_iff,
      Outcome.pure_eq_ok_iff] at h ⊢
    obtain ⟨node, hnode, others, hothers, rfl⟩ := h
    obtain ⟨done, rest, hdone, hlength, rfl⟩ := ih hothers
    exact ⟨node :: done, rest, ⟨node, hnode, done, hdone, rfl⟩, by simp [hlength], rfl⟩

theorem requiredInputs_append {done : List Node} (h : done ≠ []) (rest : List Node) :
    requiredInputs (done ++ rest) = requiredInputs done := by
  cases done with
  | nil => exact absurd rfl h
  | cons first done => rfl

end Node

theorem Step.split_ne_nil (t : Text) : split t ≠ [] := by
  intro h
  rw [split_eq, List.map_eq_nil_iff, List.zipIdx_eq_nil_iff] at h
  exact cut_ne_nil t (List.map_eq_nil_iff.1 h)

namespace Script

variable {table : List Directive} {a b : Text}

theorem exists_split_expand_append (ht : ∀ d ∈ table, Directive.Clear d.token) (a b : Text) :
    ∃ more, Step.split (Directive.expand table (a ++ (Step.separator ++ b))) =
      Step.split (Directive.expand table a) ++ more := by
  rw [Step.split_eq, Step.split_eq, Directive.texts_expand_append ht, List.zipIdx_append,
    List.map_append]
  exact ⟨_, rfl⟩

/-- The start of a script is a script, with the first of its nodes. -/
theorem compileWith_append (ht : ∀ d ∈ table, Directive.Clear d.token) {long : Script}
    (h : compileWith table (a ++ (Step.separator ++ b)) = .ok long) :
    ∃ short rest, compileWith table a = .ok short ∧ short.nodes ≠ [] ∧
      long.nodes = short.nodes ++ rest := by
  obtain ⟨-, hsteps, hactions, hvalid, hnodes⟩ := ofExpanded_eq_ok_iff.1 h
  obtain ⟨more, hmore⟩ := exists_split_expand_append ht a b
  rw [hsteps, hmore] at hactions
  obtain ⟨front, back, hfront, -, hsplit⟩ := Action.ofSteps_append hactions
  have hne : front ≠ [] := Action.ofSteps_ne_nil (Step.split_ne_nil _) hfront
  rw [hsplit] at hvalid hnodes
  obtain ⟨done, rest, hdone, hlength, hlong⟩ := Node.ofActionsFrom_append hnodes
  have hdone' : done ≠ [] := by
    rintro rfl
    exact hne (List.length_eq_zero_iff.1 hlength.symm)
  have hshort : compileWith table a = .ok ⟨_, _, front, done⟩ :=
    ofExpanded_eq_ok_iff.2 ⟨rfl, rfl, hfront, Verdict.ofActions_append hne hvalid, hdone⟩
  exact ⟨_, rest, hshort, hdone', hlong⟩

section

variable {short long : Script} {rest : List Node}

theorem requiredInputs_of_nodes_append (hne : short.nodes ≠ [])
    (h : long.nodes = short.nodes ++ rest) : long.requiredInputs = short.requiredInputs := by
  rw [requiredInputs, h, Node.requiredInputs_append hne]
  rfl

/-- The run of a script starts with the run of its first nodes. -/
theorem run_of_nodes_append (hne : short.nodes ≠ []) (h : long.nodes = short.nodes ++ rest)
    (initial : Table Value) (p : Provider) :
    long.run initial p =
      (short.run initial p).runNodesFrom p (short.nodes.length + 1) rest := by
  have hinputs := requiredInputs_of_nodes_append hne h
  rw [run, hinputs, h, Run.runNodes, Run.runNodesFrom_append, Nat.add_comm 1]
  rfl

end

/-- More steps at the end of a source change nothing for the steps before them. The shorter source
is a script with the first nodes of the longer one and the same inputs. Where its run fails, the
longer run is the same run; else the longer run goes on from there with the remaining nodes. -/
theorem compile_append_steps {long : Script}
    (h : compile (a ++ Step.separator ++ b) = .ok long) :
    ∃ short rest, compile a = .ok short ∧ long.nodes = short.nodes ++ rest ∧
      long.requiredInputs = short.requiredInputs ∧
        ∀ (initial : Table Value) (p : Provider),
          ((short.run initial p).failure ≠ none → long.run initial p = short.run initial p) ∧
          ((short.run initial p).failure = none →
            long.run initial p =
                (short.run initial p).runNodesFrom p (short.nodes.length + 1) rest ∧
              ∃ sent, Run.Continues p (short.run initial p) (long.run initial p) sent) := by
  rw [List.append_assoc] at h
  obtain ⟨short, rest, hshort, hne, hnodes⟩ := compileWith_append Directive.clear_standard h
  have hinputs := requiredInputs_of_nodes_append hne hnodes
  refine ⟨short, rest, hshort, hnodes, hinputs, fun initial p => ?_⟩
  have hrun := run_of_nodes_append hne hnodes initial p
  refine ⟨fun hf => ?_, fun _ => ⟨hrun, ?_⟩⟩
  · rw [hrun]
    exact Run.runNodesFrom_of_failure (Option.isSome_iff_ne_none.2 hf) rest
  · obtain ⟨sent, places, hsent, -⟩ := Run.runNodesFrom_visits p (short.nodes.length + 1) rest
      (short.run initial p)
    rw [hrun]
    exact ⟨sent, hsent⟩

/-- The first step of a script that goes on with a step which can never be run. -/
def selfReferringStart : Script where
  source := "{{step_2}}\nACTION: Loop\nForEveryItemDoThis: {{x}}".toList
  steps := selfReferring.steps.take 1
  actions := selfReferring.actions.take 1
  nodes := selfReferring.nodes.take 1

theorem compile_selfReferringStart : compile selfReferringStart.source = .ok selfReferringStart :=
  compile_eq_ok (by decide) (by cbv) (Step.split_eq_singleton (by decide) (by decide))
    (Action.ofSteps_cons action_selfReferring rfl) (by cbv) (by cbv)

theorem compile_append_steps_selfReferring :
    compile (selfReferringStart.source ++ Step.separator ++ "{{step_2}}".toList) =
        .ok selfReferring ∧
      (selfReferringStart.run ∅ .echo).failure ≠ none ∧
      selfReferring.run ∅ .echo = selfReferringStart.run ∅ .echo ∧
      (selfReferringStart.run (.ofList [("x".toList, .array [.string "a".toList])]) .echo).failure =
        none ∧
      ∃ rest sent, selfReferring.nodes = selfReferringStart.nodes ++ rest ∧
        Run.Continues .echo
          (selfReferringStart.run (.ofList [("x".toList, .array [.string "a".toList])]) .echo)
          (selfReferring.run (.ofList [("x".toList, .array [.string "a".toList])]) .echo) sent := by
  have hlong : compile (selfReferringStart.source ++ Step.separator ++ "{{step_2}}".toList) =
      .ok selfReferring := compile_selfReferring
  have hstop : (selfReferringStart.run ∅ .echo).failure ≠ none := by
    have hcause : (selfReferringStart.run ∅ .echo).failure =
        some ⟨1, .loop (some "x".toList) true, .unboundSource "x".toList⟩ := by decide +kernel
    rw [hcause]
    exact Option.some_ne_none _
  have hgo : (selfReferringStart.run (.ofList [("x".toList, .array [.string "a".toList])])
      .echo).failure = none := by decide +kernel
  obtain ⟨short, rest, hshort, hnodes, -, hruns⟩ := compile_append_steps hlong
  rw [compile_selfReferringStart] at hshort
  cases hshort
  obtain ⟨-, sent, hsent⟩ := (hruns _ .echo).2 hgo
  exact ⟨hlong, hstop, (hruns ∅ .echo).1 hstop, hgo, rest, sent, hnodes, hsent⟩

end Script

end PromptChain
