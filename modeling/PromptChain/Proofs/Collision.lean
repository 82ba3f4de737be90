import Mathlib.Data.List.Permutation
import PromptChain.Proofs.Compilation
import PromptChain.Proofs.InitialValues
import PromptChain.Proofs.RunFailure
import PromptChain.Proofs.Splitting

/-! Outputs whose names have a value already: such a value was always supplied by the caller. -/
namespace PromptChain

namespace Run

/-- The last call of `r'` was made for a name that had a value before, when `r` had gone on with the
calls of `sent`. -/
def Collides (p : Provider) (r r' : Run) (key : Text) : Prop :=
  ∃ before sent c, Continues p r before sent ∧ (before.environment.get? key).isSome = true ∧
    c.key = key ∧ r'.calls = before.calls ++ [c]

variable {p : Provider}

theorem Continues.collides {r before r' : Run} {sent : List Call} {key : Text}
    (hc : Continues p r before sent) (h : Collides p before r' key) : Collides p r r' key := by
  obtain ⟨last, sent', c, hc', hbound, hkey, hcalls⟩ := h
  exact ⟨last, sent ++ sent', c, hc.trans hc', hbound, hkey, hcalls⟩

theorem ask_collides {step : Nat} {kind : Kind} {key prompt : Text} {r : Run} {f : Failure}
    (hr : r.failure = none) (hf : (r.ask p step kind key prompt).failure = some f) :
    f = ⟨step, kind, .duplicate key⟩ ∧ Collides p r (r.ask p step kind key prompt) key := by
  have hcalls := (ask_continues p step kind key prompt r).calls
  rcases ask_failure p step kind key prompt r with h | ⟨h, hk⟩
  · rw [h, hr] at hf
    cases hf
  · have heq : f = ⟨step, kind, .duplicate key⟩ := Option.some.inj (hf.symm.trans h)
    exact ⟨heq, r, [], r.call p key prompt, Continues.refl p r, hk, rfl, hcalls⟩

/-- A loop that stops at the name of an output has come to an item whose name had a value. -/
theorem runItems_collides {step : Nat} {heading : Heading} {text : Text} {index : Nat}
    {items : List Json} {r : Run} {n : Nat} {kind : Kind} {key : Text} (hr : r.failure = none)
    (hf : (r.runItems p step heading text index items).failure = some ⟨n, kind, .duplicate key⟩) :
    kind = heading.kind ∧ n = step ∧ (∃ m, index ≤ m ∧ key = Step.itemKey step m) ∧
      Collides p r (r.runItems p step heading text index items) key := by
  induction items generalizing index r with
  | nil =>
    rw [runItems_nil, hr] at hf
    cases hf
  | cons item items ih =>
    rw [runItems_cons] at hf ⊢
    cases hp : promptOfItem r.environment heading text item with
    | error u =>
      rw [runItem_of_error hr hp, runItems_of_failure rfl] at hf
      cases hf
    | ok prompt =>
      rw [runItem_of_ok hr hp] at hf ⊢
      have hc := ask_continues p step heading.kind (Step.itemKey step index) prompt r
      cases hn : (r.ask p step heading.kind (Step.itemKey step index) prompt).failure with
      | none =>
        obtain ⟨hkind, hstep, ⟨m, hm, hkey⟩, hlater⟩ := ih hn hf
        exact ⟨hkind, hstep, ⟨m, by omega, hkey⟩, hc.collides hlater⟩
      | some g =>
        -- The items after this one are not looked at.
        obtain ⟨rfl, hcollides⟩ := ask_collides hr hn
        rw [runItems_of_failure (by rw [hn]; rfl)] at hf ⊢
        rw [hn] at hf
        cases hf
        exact ⟨rfl, rfl, ⟨index, Nat.le_refl index, rfl⟩, hcollides⟩

/-- The name at which a node stops is that of its output, or that of an item if it is a loop. -/
theorem runNode_collides {r : Run} {node : Node} {step n : Nat} {kind : Kind} {key : Text}
    (hr : r.failure = none)
    (hf : (r.runNode p node step).failure = some ⟨n, kind, .duplicate key⟩) :
    kind = node.heading.kind ∧ n = step ∧
      (kind = .default ∧ key = Step.outputKey step ∨
        kind.isLoop = true ∧ ∃ m, 1 ≤ m ∧ key = Step.itemKey step m) ∧
      Collides p r (r.runNode p node step) key := by
  cases node with
  | branch heading references children =>
    simp only [runNode, hr] at hf
    cases hf
  | leaf heading references text =>
    cases hk : heading.kind with
    | default =>
      rw [runNode_prompt hr hk] at hf ⊢
      unfold runPrompt at hf ⊢
      cases hp : render r.environment ∅ text with
      | error u =>
        rw [hp] at hf
        cases hf
      | ok prompt =>
        rw [hp] at hf
        obtain ⟨heq, hcollides⟩ := ask_collides hr hf
        cases heq
        exact ⟨hk.symm, rfl, Or.inl ⟨rfl, rfl⟩, hcollides⟩
    | loop source aggregate =>
      rw [runNode_loop hr hk] at hf ⊢
      unfold runLoop at hf ⊢
      cases source with
      | none => cases hf
      | some name =>
        dsimp only at hf ⊢
        cases hv : r.environment.get? name with
        | none =>
          rw [hv] at hf
          cases hf
        | some value =>
          rw [hv] at hf
          dsimp only at hf ⊢
          cases hi : value.items? with
          | none =>
            rw [hi] at hf
            cases hf
          | some items =>
            rw [hi] at hf
            obtain ⟨hkind, hstep, hkey, hcollides⟩ := runItems_collides hr hf
            have hloop : kind.isLoop = true := by rw [hkind, hk]; rfl
            exact ⟨hkind, hstep, Or.inr ⟨hloop, hkey⟩, hcollides⟩

/-- Of all that is called for in a run, no name is called for twice. -/
theorem nodup_keys_runNodes (p : Provider) (earlier : List Text) (e : Environment)
    (nodes : List Node) :
    (((start earlier e).runNodes p nodes).calls.map Call.key).Nodup := by
  obtain ⟨sent, places, hc, hv, -⟩ := runNodesFrom_visits p 1 nodes (start earlier e)
  have hcalls : ((start earlier e).runNodes p nodes).calls = sent := by
    simpa [start, runNodes] using hc.calls
  rw [hcalls, hv.keys]
  exact Place.nodup_keys hv.order

/-- A name that collides has had its value from the start of the run. -/
theorem isSome_of_collides {nodes : List Node} {earlier : List Text} {e : Environment} {key : Text}
    (h : Collides p (start earlier e) ((start earlier e).runNodes p nodes) key) :
    (e.get? key).isSome = true := by
  obtain ⟨before, sent, c, hc, hbound, hkey, hcalls⟩ := h
  have hnodup := nodup_keys_runNodes p earlier e nodes
  have hsent : before.calls = sent := by simpa [start] using hc.calls
  rw [hcalls, hsent, List.map_append, List.nodup_append] at hnodup
  -- No call before the last one is for the same name, so that none of them has bound it.
  have hother : ∀ d ∈ sent, d.key ≠ key := by
    intro d hd
    rw [← hkey]
    exact hnodup.2.2 d.key (List.mem_map_of_mem hd) c.key (by simp)
  rw [hc.get?_of_ne hother] at hbound
  exact hbound

end Run

namespace Script

theorem get?_initialEnvironment_of_isReference (s : Script) (initial : Table Value) {name : Text}
    (hr : Step.isReference name = true) :
    Table.get? name (initialEnvironment s.requiredInputs initial) = none := by
  rw [← Option.not_isSome_iff_eq_none]
  intro hsome
  have hrequired := ((has_initialEnvironment s.requiredInputs initial name).1 hsome).1
  rw [requiredInputs_eq, List.mem_filter, hr] at hrequired
  cases hrequired.2

/-- A run starts without values for names of outputs. It stops at an output whose name has a value
only in a loop, at the name of an item that is a required input and was supplied: no two outputs of
a run have the same name. -/
theorem duplicate_output_supplied (s : Script) (initial : Table Value) (p : Provider) :
    (∀ name, Step.isReference name = true →
      Table.get? name (initialEnvironment s.requiredInputs initial) = none) ∧
    (∀ n kind key, (s.run initial p).failure = some ⟨n, kind, .duplicate key⟩ →
      ∃ k node m, n = k + 1 ∧ s.nodes[k]? = some node ∧ node.heading.kind = kind ∧
        kind.isLoop = true ∧ 1 ≤ m ∧ key = Step.itemKey n m ∧ key ∈ s.requiredInputs ∧
          initial.has key = true) ∧
    ((s.run initial p).calls.map Call.key).Nodup := by
  refine ⟨fun name hr => get?_initialEnvironment_of_isReference s initial hr, ?_,
    Run.nodup_keys_runNodes p [] _ s.nodes⟩
  intro n kind key hf
  obtain ⟨done, node, rest, hnodes, hdone, hlast⟩ := Run.exists_failing_node rfl hf
  have hnode : s.nodes[done.length]? = some node := by simp [hnodes]
  obtain ⟨hkind, hn, hkey, hcollides⟩ := Run.runNode_collides hdone (by rw [hlast]; exact hf)
  obtain ⟨sent, -, hc, -, -⟩ := Run.runNodesFrom_visits p 1 done
    (Run.start [] (initialEnvironment s.requiredInputs initial))
  rw [hlast] at hcollides
  have hbound := Run.isSome_of_collides (hc.collides hcollides)
  obtain ⟨hrequired, hsupplied⟩ := (has_initialEnvironment _ _ _).1 hbound
  rcases hkey with ⟨-, rfl⟩ | ⟨hloop, m, hm, rfl⟩
  · rw [get?_initialEnvironment_of_isReference s initial (Step.isReference_outputKey _)] at hbound
    cases hbound
  · have hstep : n = done.length + 1 := by omega
    subst hn
    exact ⟨done.length, node, m, hstep, hnode, hkind.symm, hloop, hm, rfl, hrequired, hsupplied⟩

/-- A loop over `xs` that also declares the name of its first item's output. -/
def colliding : Script where
  source := "{{step_1_1}}\nACTION: Loop\nForEveryItemDoThis: {{xs}}".toList
  steps := [⟨1, "{{step_1_1}}\nACTION: Loop\nForEveryItemDoThis: {{xs}}".toList⟩]
  actions :=
    [.text ⟨.loop (some "xs".toList) true, ["step_1_1".toList, "xs".toList], {}⟩ "{{xs}}".toList]
  nodes :=
    [.leaf ⟨.loop (some "xs".toList) true, ["step_1_1".toList, "xs".toList], {}⟩
      ["step_1_1".toList, "xs".toList] "{{xs}}".toList]

set_option maxRecDepth 4000 in
theorem action_colliding :
    Step.action ⟨1, "{{step_1_1}}\nACTION: Loop\nForEveryItemDoThis: {{xs}}".toList⟩ =
      .ok (.text ⟨.loop (some "xs".toList) true, ["step_1_1".toList, "xs".toList], {}⟩
        "{{xs}}".toList) := by
  have hmany : manyItems? "{{step_1_1}}\nACTION: Loop\nForEveryItemDoThis: {{xs}}".toList = none := by
    decide
  simp only [Step.action, hmany]
  cbv

theorem compile_colliding : compile colliding.source = .ok colliding :=
  compile_eq_ok (by decide) (by cbv) (Step.split_eq_singleton (by decide) (by decide))
    (Action.ofSteps_cons action_colliding rfl) (by cbv) (by cbv)

theorem duplicate_output_supplied_colliding :
    compile colliding.source = .ok colliding ∧
      (colliding.run (.ofList [("step_1_1".toList, .string "a".toList),
        ("xs".toList, .array [.string "b".toList])]) .echo).failure =
          some ⟨1, .loop (some "xs".toList) true, .duplicate "step_1_1".toList⟩ ∧
      ∃ k node m, 1 = k + 1 ∧ colliding.nodes[k]? = some node ∧
        node.heading.kind = .loop (some "xs".toList) true ∧
          (Kind.loop (some "xs".toList) true).isLoop = true ∧ 1 ≤ m ∧
            "step_1_1".toList = Step.itemKey 1 m ∧ "step_1_1".toList ∈ colliding.requiredInputs ∧
              Table.has "step_1_1".toList (.ofList [("step_1_1".toList, Value.string "a".toList),
                ("xs".toList, .array [.string "b".toList])]) = true := by
  have hf : (colliding.run (.ofList [("step_1_1".toList, .string "a".toList),
      ("xs".toList, .array [.string "b".toList])]) .echo).failure =
        some ⟨1, .loop (some "xs".toList) true, .duplicate "step_1_1".toList⟩ := by
    decide +kernel
  exact ⟨compile_colliding, hf, (duplicate_output_supplied colliding _ .echo).2.1 _ _ _ hf⟩

end Script

end PromptChain
