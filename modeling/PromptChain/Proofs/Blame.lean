import PromptChain.Proofs.InitialValues
import PromptChain.Proofs.RunFailure
import PromptChain.Proofs.Scope

/-! Undefined names in runs of compiled scripts: each of them has one of a few known reasons. -/
namespace PromptChain.Script

/-- Why a name that a compiled script uses at step `n` has no value in a run. -/
inductive Blame (s : Script) (initial : Table Value) (r : Run) (n : Nat) (name : Text) : Prop where
  /-- A required input was not supplied. -/
  | missingInput (hr : name ∈ s.requiredInputs) (hn : initial.get? name = none)
  /-- The first step declares a name in the shape of an output's name. -/
  | firstStep (hd : name ∈ s.declared) (hr : Step.isReference name = true)
  /-- The number of an earlier step has zeros or a plus sign before it. -/
  | misspelled (h : Step.IsMisspelled n name) (numeral : Text)
      (hn : name = Step.outputStem ++ '_' :: numeral)
      (hh : numeral.head? = some '0' ∨ numeral.head? = some '+')
  /-- The name is that of an earlier loop, whose outputs are kept under the names of its items. -/
  | loop {k : Nat} {node : Node} (hk : k + 1 < n) (hname : name = Step.outputKey (k + 1))
      (hnode : s.nodes[k]? = some node) (hl : node.heading.kind.isLoop = true)
  /-- The call for the output of an earlier prompt failed or was answered with nothing. -/
  | silent {k : Nat} {node : Node} {c : Call} (hk : k + 1 < n)
      (hname : name = Step.outputKey (k + 1)) (hnode : s.nodes[k]? = some node)
      (hd : node.heading.kind = .default) (hc : c ∈ r.calls) (hkey : c.key = name)
      (hs : IsSilent c.reply)

/-- The name is no placeholder of the text of step `n`, but stands in the text once the free names
are filled. -/
def Introduced (s : Script) (r : Run) (n : Nat) (name : Text) : Prop :=
  ∃ i heading references text bindings filled, n = i + 1 ∧
    s.nodes[i]? = some (.leaf heading references text) ∧ name ∉ text.placeholders ∧
      heading.Binds r.environment bindings ∧
        substitute .free (fun other => (bindings.get? other).or (r.environment.get? other)) text =
          .ok filled ∧ name ∈ filled.placeholders

section

variable {table : List Directive} {source : Text} {s : Script} {initial : Table Value} {r : Run}
  {i : Nat} {name : Text}

/-- A run has what a step needs: the inputs that were supplied, and an account of the output of
every earlier step. -/
structure Prepared (s : Script) (initial : Table Value) (r : Run) (i : Nat) : Prop where
  inputs : ∀ name ∈ s.requiredInputs, initial.get? name ≠ none → r.environment.get? name ≠ none
  outputs : ∀ k < i, ∃ node, s.nodes[k]? = some node ∧ r.Settled (k + 1) node

theorem blame_of_unbound (hs : compileWith table source = .ok s) (hp : Prepared s initial r i)
    {a : Action} (ha : s.actions[i]? = some a) (hn : name ∈ a.usedNames)
    (hunbound : r.environment.get? name = none) : Blame s initial r (i + 1) name := by
  rcases declared_or_earlier_or_misspelled hs ha hn with hd | ⟨k, h1, hk, rfl⟩ | hm
  · cases hr : Step.isReference name with
    | true => exact .firstStep hd hr
    | false =>
      have hrequired : name ∈ s.requiredInputs := by
        rw [requiredInputs_eq, List.mem_filter]
        exact ⟨hd, by simp [hr]⟩
      refine .missingInput hrequired ?_
      by_contra hsupplied
      exact hp.inputs name hrequired hsupplied hunbound
  · obtain ⟨j, rfl⟩ : ∃ j, k = j + 1 := ⟨k - 1, by omega⟩
    obtain ⟨node, hnode, hbound | hl | ⟨hd, c, hc, hkey, hsilent⟩⟩ := hp.outputs j (by omega)
    · rw [hunbound] at hbound
      cases hbound
    · exact .loop hk rfl hnode hl
    · exact .silent hk rfl hnode hd hc hkey hsilent
  · obtain ⟨numeral, hname, hhead⟩ := hm.head
    exact .misspelled hm numeral hname hhead

theorem prepared_of_runNodesFrom {p : Provider} {done rest : List Node} {node : Node}
    (hnodes : s.nodes = done ++ node :: rest)
    (hdone : ((Run.start [] (initialEnvironment s.requiredInputs initial)).runNodesFrom p 1
      done).failure = none) :
    Prepared s initial (((Run.start [] (initialEnvironment s.requiredInputs initial)).runNodesFrom
      p 1 done).runNode p node (1 + done.length)) done.length := by
  obtain ⟨sent, -, hc, -, -⟩ := Run.runNodesFrom_visits p 1 done
    (Run.start [] (initialEnvironment s.requiredInputs initial))
  obtain ⟨sent', -, hc', -, -⟩ := Run.runNode_visits p
    ((Run.start [] (initialEnvironment s.requiredInputs initial)).runNodesFrom p 1 done) node
    (1 + done.length)
  constructor
  · intro name hr hsupplied
    have hhas : Table.has name (initialEnvironment s.requiredInputs initial) = true :=
      (has_initialEnvironment _ _ _).2 ⟨hr, Option.isSome_iff_ne_none.2 hsupplied⟩
    obtain ⟨value, hv⟩ := Option.isSome_iff_exists.1 hhas
    rw [(hc.trans hc').get?_of_some hv]
    exact Option.some_ne_none value
  · intro k hk
    have hget : s.nodes[k]? = done[k]? := by
      rw [hnodes, List.getElem?_append_left hk]
    refine ⟨done[k], ?_, ?_⟩
    · rw [hget, List.getElem?_eq_getElem hk]
    · have hsettled := Run.runNodesFrom_settled hdone (List.getElem?_eq_getElem hk)
      rw [Nat.add_comm 1 k] at hsettled
      exact hsettled.mono hc'

end

/-- An undefined name that stops a run of a compiled script is a required input that was not
supplied, or has the shape of an output's name and is declared by the first step, or misspells the
number of an earlier step, or is the name of the output of an earlier step that is a loop or was
answered with nothing. A text may besides fail at a name that filling its free names brought in. -/
theorem undefined_name_blamed {table : List Directive} {source : Text} {s : Script}
    (hs : compileWith table source = .ok s) (initial : Table Value) (p : Provider) {n : Nat}
    {kind : Kind} {cause : Cause} {name : Text}
    (hf : (s.run initial p).failure = some ⟨n, kind, cause⟩)
    (hc : cause = .undefined name ∨ cause = .unboundSource name) :
    Blame s initial (s.run initial p) n name ∨
      cause = .undefined name ∧ Introduced s (s.run initial p) n name := by
  obtain ⟨done, node, rest, hnodes, hdone, hlast⟩ := Run.exists_failing_node rfl hf
  have hprepared : Prepared s initial (s.run initial p) done.length := by
    have h := prepared_of_runNodesFrom hnodes hdone
    rw [hlast] at h
    exact h
  have hnode : s.nodes[done.length]? = some node := by simp [hnodes]
  obtain ⟨hstep, hfails⟩ := Run.runNode_fails hdone (by rw [hlast]; exact hf)
  rw [hlast] at hfails
  have hn : n = done.length + 1 := hstep.trans (Nat.add_comm 1 done.length)
  subst hn
  obtain ⟨a, ha, haction⟩ := node_of_compileWith hs hnode
  rcases hc with rfl | rfl
  · obtain ⟨heading, references, text, bindings, rfl, hbinds, hrender⟩ := hfails
    rw [Node.text_of_ofAction haction] at ha
    obtain ⟨hunbound, hplace⟩ := render_error hrender
    -- The check of a script sees the placeholders of its texts, not those that values bring in.
    by_cases hm : name ∈ text.placeholders
    · have hused : name ∈ (Action.text heading text).usedNames := by
        simp [Action.usedNames, Action.checkedTexts, hm]
      exact Or.inl (blame_of_unbound hs hprepared ha hused hunbound)
    · rcases hplace with h | ⟨filled, hfilled, hm'⟩
      · exact absurd h hm
      · exact Or.inr ⟨rfl, done.length, heading, references, text, bindings, filled, rfl, hnode,
          hm, hbinds, hfilled, hm'⟩
  · obtain ⟨heading, references, text, rfl, hsource, hunbound⟩ := hfails
    rw [Node.text_of_ofAction haction] at ha
    have hused : name ∈ (Action.text heading text).usedNames := by
      simp [Action.usedNames, Action.heading, hsource]
    exact Or.inl (blame_of_unbound hs hprepared ha hused hunbound)

theorem undefined_name_blamed_selfReferring :
    compileWith Directive.standard selfReferring.source = .ok selfReferring ∧
      (selfReferring.run (.ofList [("x".toList, .array [.string "a".toList])]) .echo).failure =
        some ⟨2, .default, .undefined "step_2".toList⟩ ∧
      (Blame selfReferring (.ofList [("x".toList, .array [.string "a".toList])])
          (selfReferring.run (.ofList [("x".toList, .array [.string "a".toList])]) .echo) 2
          "step_2".toList ∨
        Cause.undefined "step_2".toList = .undefined "step_2".toList ∧
          Introduced selfReferring
            (selfReferring.run (.ofList [("x".toList, .array [.string "a".toList])]) .echo) 2
            "step_2".toList) := by
  have hf : (selfReferring.run (.ofList [("x".toList, .array [.string "a".toList])]) .echo).failure =
      some ⟨2, .default, .undefined "step_2".toList⟩ := by decide +kernel
  exact ⟨compile_selfReferring, hf,
    undefined_name_blamed compile_selfReferring _ _ hf (Or.inl rfl)⟩

end PromptChain.Script
