import PromptChain.Proofs.Lists
import PromptChain.Proofs.Rejection

/-! Declared names: each name of a step's text once, in the order in which names first appear there.
What the step's action uses is among them, so that a node refers to its declared names and no others. -/
namespace PromptChain

theorem mem_nameSet {names : List Text} {name : Text} : name ∈ nameSet names ↔ name ∈ names :=
  List.mem_mergeSort.trans List.mem_eraseDups

/-- A set of names is kept in order, without repetitions. -/
theorem pairwise_nameSet (names : List Text) : (nameSet names).Pairwise (· < ·) := by
  have htrans : ∀ a b c : Text, (!decide (b < a)) = true → (!decide (c < b)) = true →
      (!decide (c < a)) = true := by
    simp only [Bool.not_eq_true', decide_eq_false_iff_not, List.not_lt]
    intro a b c hab hbc
    exact List.le_trans hab hbc
  have htotal : ∀ a b : Text, (!decide (b < a) || !decide (a < b)) = true := by
    simp only [Bool.or_eq_true, Bool.not_eq_true', decide_eq_false_iff_not, List.not_lt]
    exact List.le_total
  have hsorted := List.pairwise_mergeSort htrans htotal names.eraseDups
  have hnodup : (nameSet names).Nodup := (List.mergeSort_perm _ _).nodup_iff.2 names.nodup_eraseDups
  refine (hsorted.and hnodup).imp ?_
  rintro m n ⟨hle, hne⟩
  rw [Bool.not_eq_true', decide_eq_false_iff_not, List.not_lt] at hle
  by_contra hlt
  exact hne (List.le_antisymm hle (List.not_lt.1 hlt))

/-- The names that a node refers to. -/
def Node.references : Node → List Text
  | leaf _ references _ => references
  | branch _ references _ => references

/-- The node of a text refers to the names in the text and to those that its heading declares. -/
theorem Node.mem_references_of_ofAction {step : Nat} {heading : Heading} {body : Text} {node : Node}
    (h : ofAction step (.text heading body) = .ok node) (name : Text) :
    name ∈ node.references ↔ name ∈ body.placeholders ∨ name ∈ heading.declared := by
  cases h
  rw [references, mem_nameSet, List.mem_append]

theorem Node.pairwise_references {step : Nat} {a : Action} {node : Node}
    (h : ofAction step a = .ok node) : node.references.Pairwise (· < ·) := by
  cases a with
  | text heading body =>
    cases h
    exact pairwise_nameSet _
  | steps heading children =>
    unfold ofAction at h
    split_ifs at h
    simp only [Outcome.bind_eq_ok_iff, Outcome.pure_eq_ok_iff] at h
    obtain ⟨nodes, -, rfl⟩ := h
    exact pairwise_nameSet _

theorem Step.mem_declared_of_body {s : Step} {heading : Heading} {body : Text}
    (h : s.action = .ok (.text heading body)) {name : Text} (hn : name ∈ body.placeholders) :
    name ∈ heading.declared :=
  declared_of_mem_usedNames h (by simp [Action.usedNames, Action.checkedTexts, hn])

/-- Every node of a script is made of the action of the step in its place. -/
theorem Script.exists_step_of_node {table : List Directive} {source : Text} {s : Script}
    (h : compileWith table source = .ok s) {node : Node} (hn : node ∈ s.nodes) :
    ∃ n step a, step ∈ s.steps ∧ step.action = .ok a ∧ Node.ofAction n a = .ok node := by
  obtain ⟨i, hi⟩ := List.getElem?_of_mem hn
  obtain ⟨a, ha, hnode⟩ := node_of_compileWith h hi
  obtain ⟨-, -, hactions, -, -⟩ := ofExpanded_eq_ok_iff.1 h
  obtain ⟨step, hstep, haction⟩ := Action.step_of_ofSteps hactions ha
  exact ⟨1 + i, step, a, List.mem_of_getElem? hstep, haction, hnode⟩

/-- The action of a step declares the names of the step's text, each once and in the order in which
they first appear. Among them are the names in its body and the source of its list. A node of a
script therefore refers to its declared names exactly. -/
theorem names_declared_by_step :
    (∀ (s : Step) (a : Action), s.action = .ok a →
      a.heading.declared.Nodup ∧
      (∀ name, name ∈ a.heading.declared ↔ name ∈ s.text.placeholders) ∧
      (a.heading.declared.Pairwise fun m n =>
        s.text.placeholders.idxOf m < s.text.placeholders.idxOf n) ∧
      (∃ body, a = .text a.heading body ∧ ∀ name ∈ body.placeholders, name ∈ a.heading.declared) ∧
      ∀ name ∈ a.heading.kind.source?, name ∈ a.heading.declared) ∧
    ∀ (table : List Directive) (source : Text) (s : Script),
      Script.compileWith table source = .ok s → ∀ node ∈ s.nodes,
        node.references.Pairwise (· < ·) ∧
          ∀ name, name ∈ node.references ↔ name ∈ node.heading.declared := by
  constructor
  · intro s a h
    obtain ⟨kind, body, rfl, -⟩ := Step.action_eq_ok h
    refine ⟨List.nodup_eraseDups _, fun name => List.mem_eraseDups,
      List.pairwise_idxOf_eraseDups _,
      ⟨body, rfl, fun name hn => Step.mem_declared_of_body h hn⟩, fun name hn => ?_⟩
    apply Step.declared_of_mem_usedNames h
    exact List.mem_append_right _ (Option.mem_toList.2 hn)
  · intro table source s hs node hn
    obtain ⟨n, step, a, -, ha, hnode⟩ := Script.exists_step_of_node hs hn
    refine ⟨Node.pairwise_references hnode, fun name => ?_⟩
    rw [Node.heading_of_ofAction hnode]
    obtain ⟨kind, body, rfl, -⟩ := Step.action_eq_ok ha
    rw [Node.mem_references_of_ofAction hnode]
    exact or_iff_right_of_imp (Step.mem_declared_of_body ha)

theorem names_declared_by_step_selfReferring :
    (∃ a, Step.action ⟨1, "{{step_2}}\nACTION: Loop\nForEveryItemDoThis: {{x}}".toList⟩ = .ok a ∧
      a.heading.kind.source? = some "x".toList ∧ a.heading.declared.Nodup ∧
        "x".toList ∈ a.heading.declared) ∧
    Script.compileWith Directive.standard Script.selfReferring.source = .ok Script.selfReferring ∧
      ∃ node ∈ Script.selfReferring.nodes,
        ∀ name, name ∈ node.references ↔ name ∈ node.heading.declared := by
  have hstep := names_declared_by_step.1 _ _ Script.action_selfReferring
  have hnode := names_declared_by_step.2 _ _ _ Script.compile_selfReferring _ List.mem_cons_self
  exact ⟨⟨_, Script.action_selfReferring, rfl, hstep.1, hstep.2.2.2.2 _ rfl⟩,
    Script.compile_selfReferring, _, List.mem_cons_self, hnode.2⟩

end PromptChain
