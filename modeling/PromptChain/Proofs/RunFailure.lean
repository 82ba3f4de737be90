import PromptChain.Proofs.CommitLog
import PromptChain.Proofs.Filling

/-! Where and why a run stops, and what the nodes before that place have left. -/
namespace PromptChain

/-- The bindings under which the text of a node is filled: none for a prompt, and those of an item
of its list for a loop. -/
def Heading.Binds (e : Environment) (heading : Heading) (bindings : Table Value) : Prop :=
  match heading.kind with
  | .default => bindings = ∅
  | .loop source _ => ∃ name value items item, source = some name ∧ e.get? name = some value ∧
      value.items? = some items ∧ item ∈ items ∧ bindings = Run.itemBindings heading item

/-- What holds of a node that stopped for a cause, in the environment that it left. -/
def Node.FailsWith (e : Environment) (node : Node) : Cause → Prop
  | .branch => ∃ heading references children, node = .branch heading references children
  | .undefined name => ∃ heading references text bindings,
      node = .leaf heading references text ∧ heading.Binds e bindings ∧
        render e bindings text = .error ⟨name⟩
  | .duplicate key => (e.get? key).isSome = true
  | .unnamedSource => node.heading.kind.isLoop = true ∧ node.heading.kind.source? = none
  | .unboundSource name => ∃ heading references text, node = .leaf heading references text ∧
      heading.kind.source? = some name ∧ e.get? name = none
  | .notAList name _ => node.heading.kind.source? = some name ∧
      ∃ value, e.get? name = some value ∧ value.items? = none

namespace Run

variable {p : Provider}

/-- A failure when a prompt is sent leaves a value under the name of the output. -/
theorem ask_fails {step : Nat} {kind : Kind} {key prompt : Text} {r : Run} {f : Failure}
    (hr : r.failure = none) (hf : (r.ask p step kind key prompt).failure = some f) :
    f = ⟨step, kind, .duplicate key⟩ ∧
      ((r.ask p step kind key prompt).environment.get? key).isSome = true := by
  rcases ask_failure p step kind key prompt r with h | ⟨h, hk⟩
  · rw [h, hr] at hf
    cases hf
  · obtain ⟨value, hv⟩ := Option.isSome_iff_exists.1 hk
    refine ⟨Option.some.inj (hf.symm.trans h), ?_⟩
    rw [(ask_continues p step kind key prompt r).get?_of_some hv]
    rfl

theorem runItems_fails {step : Nat} {heading : Heading} {text : Text} {index : Nat}
    {items : List Json} {r : Run} {f : Failure} (hr : r.failure = none)
    (hf : (r.runItems p step heading text index items).failure = some f) :
    (∃ item u, item ∈ items ∧ f = ⟨step, heading.kind, .undefined u.name⟩ ∧
      render (r.runItems p step heading text index items).environment
        (itemBindings heading item) text = .error u) ∨
    ∃ key, f = ⟨step, heading.kind, .duplicate key⟩ ∧
      ((r.runItems p step heading text index items).environment.get? key).isSome = true := by
  induction items generalizing index r with
  | nil =>
    rw [runItems_nil, hr] at hf
    cases hf
  | cons item items ih =>
    rw [runItems_cons] at hf ⊢
    cases hn : (r.runItem p step heading text item index).failure with
    | none =>
      rcases ih hn hf with ⟨other, u, hm, he, hrender⟩ | hdup
      · exact Or.inl ⟨other, u, List.mem_cons_of_mem item hm, he, hrender⟩
      · exact Or.inr hdup
    | some g =>
      -- The rest of the items are not looked at.
      rw [runItems_of_failure (by rw [hn]; rfl), hn] at hf
      rw [runItems_of_failure (by rw [hn]; rfl)]
      cases hp : promptOfItem r.environment heading text item with
      | error u =>
        rw [runItem_of_error hr hp] at hn ⊢
        refine Or.inl ⟨item, u, by simp, ?_, Outcome.map_eq_error_iff.1 hp⟩
        exact Option.some.inj (hf.symm.trans hn.symm)
      | ok prompt =>
        rw [runItem_of_ok hr hp] at hn ⊢
        obtain ⟨hg, hk⟩ := ask_fails hr hn
        exact Or.inr ⟨_, (Option.some.inj hf).symm.trans hg, hk⟩

/-- A node stops at its own step, for a cause that its text, its list or the environment gives. -/
theorem runNode_fails {r : Run} {node : Node} {step : Nat} {f : Failure} (hr : r.failure = none)
    (hf : (r.runNode p node step).failure = some f) :
    f.step = step ∧ node.FailsWith (r.runNode p node step).environment f.cause := by
  cases node with
  | branch heading references children =>
    simp only [runNode, hr] at hf ⊢
    cases hf
    exact ⟨rfl, heading, references, children, rfl⟩
  | leaf heading references text =>
    cases hk : heading.kind with
    | default =>
      rw [runNode_prompt hr hk] at hf ⊢
      unfold runPrompt at hf ⊢
      cases hp : render r.environment ∅ text with
      | error u =>
        rw [hp] at hf
        cases hf
        refine ⟨rfl, heading, references, text, ∅, rfl, ?_, hp⟩
        simp [Heading.Binds, hk]
      | ok prompt =>
        rw [hp] at hf
        obtain ⟨rfl, hkey⟩ := ask_fails hr hf
        exact ⟨rfl, hkey⟩
    | loop source aggregate =>
      rw [runNode_loop hr hk] at hf ⊢
      unfold runLoop at hf ⊢
      cases source with
      | none =>
        cases hf
        exact ⟨rfl, by simp [Node.heading, hk, Kind.isLoop],
          by simp [Node.heading, hk, Kind.source?]⟩
      | some name =>
        dsimp only at hf ⊢
        cases hv : r.environment.get? name with
        | none =>
          rw [hv] at hf
          cases hf
          exact ⟨rfl, heading, references, text, rfl, by simp [hk, Kind.source?], hv⟩
        | some value =>
          rw [hv] at hf
          dsimp only at hf ⊢
          cases hi : value.items? with
          | none =>
            rw [hi] at hf
            cases hf
            exact ⟨rfl, by simp [Node.heading, hk, Kind.source?], value, hv, hi⟩
          | some items =>
            rw [hi] at hf
            obtain ⟨sent, hc, -, -⟩ := runItems_continues p step heading text 1 items r
            rcases runItems_fails hr hf with ⟨item, u, hm, rfl, hrender⟩ | ⟨key, rfl, hkey⟩
            · refine ⟨rfl, heading, references, text, _, rfl, ?_, hrender⟩
              simp only [Heading.Binds, hk]
              exact ⟨name, value, items, item, rfl, hc.get?_of_some hv, hi, hm, rfl⟩
            · exact ⟨rfl, hkey⟩

/-- A run that fails does so at one of its nodes, which the nodes before it have let it come to. -/
theorem exists_failing_node {first : Nat} {nodes : List Node} {r : Run} {f : Failure}
    (hr : r.failure = none) (hf : (r.runNodesFrom p first nodes).failure = some f) :
    ∃ done node rest, nodes = done ++ node :: rest ∧
      (r.runNodesFrom p first done).failure = none ∧
      (r.runNodesFrom p first done).runNode p node (first + done.length) =
        r.runNodesFrom p first nodes := by
  induction nodes generalizing first r with
  | nil =>
    rw [runNodesFrom_nil, hr] at hf
    cases hf
  | cons node nodes ih =>
    rw [runNodesFrom_cons] at hf
    cases hn : (r.runNode p node first).failure with
    | none =>
      obtain ⟨done, other, rest, rfl, hdone, hlast⟩ := ih hn hf
      refine ⟨node :: done, other, rest, rfl, hdone, ?_⟩
      have hshift : first + (node :: done).length = first + 1 + done.length := by
        rw [List.length_cons]
        omega
      rw [hshift]
      exact hlast
    | some g =>
      have hg : (r.runNode p node first).failure.isSome = true := by
        rw [hn]
        rfl
      exact ⟨[], node, nodes, rfl, hr, (runNodesFrom_of_failure hg nodes).symm⟩

/-- What became of the output of step `n`: it has a value, or the step is a loop and has none of its
own, or the reply to its prompt brought nothing. -/
def Settled (r : Run) (n : Nat) (node : Node) : Prop :=
  (r.environment.get? (Step.outputKey n)).isSome = true ∨ node.heading.kind.isLoop = true ∨
    node.heading.kind = .default ∧ ∃ c ∈ r.calls, c.key = Step.outputKey n ∧ IsSilent c.reply

theorem Settled.mono {r r' : Run} {sent : List Call} (hc : Continues p r r' sent) {n : Nat}
    {node : Node} (h : Settled r n node) : Settled r' n node := by
  rcases h with h | h | ⟨hk, c, hm, hkey, hs⟩
  · obtain ⟨value, hv⟩ := Option.isSome_iff_exists.1 h
    left
    rw [hc.get?_of_some hv]
    rfl
  · exact Or.inr (Or.inl h)
  · refine Or.inr (Or.inr ⟨hk, c, ?_, hkey, hs⟩)
    rw [hc.calls]
    exact List.mem_append_left sent hm

theorem runNode_settled {r : Run} {node : Node} {step : Nat}
    (h : (r.runNode p node step).failure = none) : Settled (r.runNode p node step) step node := by
  have hr : r.failure = none := by
    by_contra hne
    rw [runNode_of_failure (Option.isSome_iff_ne_none.2 hne)] at h
    exact hne h
  cases node with
  | branch heading references children => simp [runNode, hr, stop] at h
  | leaf heading references text =>
    cases hk : heading.kind with
    | loop source aggregate => exact Or.inr (Or.inl (by simp [Node.heading, hk, Kind.isLoop]))
    | default =>
      rw [runNode_prompt hr hk] at h ⊢
      unfold runPrompt at h ⊢
      cases hp : render r.environment ∅ text with
      | error u => simp [hp, stop] at h
      | ok prompt =>
        have hc := ask_continues p step .default (Step.outputKey step) prompt r
        cases ho : (r.call p (Step.outputKey step) prompt).output? with
        | some output =>
          left
          rw [hc.get?, outputOf_singleton, call_key, if_pos rfl, ho]
          simp
        | none =>
          right
          right
          refine ⟨hk, r.call p (Step.outputKey step) prompt, ?_, rfl,
            Call.output?_eq_none_iff.1 ho⟩
          rw [hc.calls]
          simp

theorem runNodesFrom_settled {first : Nat} {nodes : List Node} {r : Run}
    (h : (r.runNodesFrom p first nodes).failure = none) {i : Nat} {node : Node}
    (hi : nodes[i]? = some node) :
    Settled (r.runNodesFrom p first nodes) (first + i) node := by
  induction nodes generalizing first r i with
  | nil => simp at hi
  | cons other nodes ih =>
    rw [runNodesFrom_cons] at h ⊢
    cases i with
    | zero =>
      cases hi
      obtain ⟨sent, -, hc, -, -⟩ :=
        runNodesFrom_visits p (first + 1) nodes (r.runNode p node first)
      exact (runNode_settled (failure_eq_none_of_runNodesFrom h)).mono hc
    | succ i =>
      have hshift : first + (i + 1) = first + 1 + i := by omega
      rw [hshift]
      exact ih h (by simpa using hi)

end Run

end PromptChain
