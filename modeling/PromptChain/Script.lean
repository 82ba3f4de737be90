import PromptChain.Action.Extract
import PromptChain.Directive.Standard
import PromptChain.Node
import PromptChain.Verdict

/-! Scripts: from a source to the nodes that are run. -/
namespace PromptChain

/-- A script with all that was made of it on the way. -/
structure Script where
  source : Text
  steps : List Step
  actions : List Action
  nodes : List Node

inductive CompileError where
  | unknownAction (cause : UnknownAction)
  | rejected (verdict : Verdict)
  | loopWithSteps (cause : LoopWithSteps)
deriving DecidableEq, Repr

namespace UnknownAction

def diagnostic (e : UnknownAction) : Diagnostic where
  code := "ACTION_KIND_UNKNOWN".toList
  message := "Step ".toList ++ Text.ofNat e.step ++ " declares unsupported action ".toList ++
    e.word.quoted ++ "; only ".toList ++ loopWord.quoted ++ " is known.".toList
  step := some e.step

end UnknownAction

namespace LoopWithSteps

def diagnostic (e : LoopWithSteps) : Diagnostic where
  code := "AST_LOOP_BODY_INVALID".toList
  message := "Loop at step ".toList ++ Text.ofNat e.step ++
    " must carry a single templated body.".toList
  step := some e.step

end LoopWithSteps

namespace CompileError

def diagnostic : CompileError → Diagnostic
  | unknownAction cause => cause.diagnostic
  | loopWithSteps cause => cause.diagnostic
  | rejected verdict =>
    let place := match verdict.step? with
      | some step => " at step ".toList ++ Text.ofNat step
      | none => []
    { code := verdict.code
      message := "Script failed validation".toList ++ place ++ ": ".toList ++ verdict.code ++ ['.']
      step := verdict.step? }

end CompileError

namespace Script

def ofExpanded (source : Text) : Except CompileError Script := do
  let steps := Step.split source
  let actions ← (Action.ofSteps steps).mapError .unknownAction
  let verdict := Verdict.ofActions actions
  if verdict ≠ .valid then
    throw (.rejected verdict)
  let nodes ← (Node.ofActions actions).mapError .loopWithSteps
  pure ⟨source, steps, actions, nodes⟩

/-- The script of a source whose directives are those of the table. -/
def compileWith (table : List Directive) (source : Text) : Except CompileError Script :=
  ofExpanded (Directive.expand table source)

def compile (source : Text) : Except CompileError Script :=
  compileWith Directive.standard source

def requiredInputs (s : Script) : List Text :=
  Node.requiredInputs s.nodes

end Script

end PromptChain
