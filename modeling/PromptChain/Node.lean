import PromptChain.Action.Basic
import PromptChain.Placeholder
import PromptChain.Step

/-! Nodes: actions ready to be run, with the names that they refer to. -/
namespace PromptChain

/-- Names in order, each once. -/
def nameSet (names : List Text) : List Text :=
  names.eraseDups.mergeSort fun s t => !decide (t < s)

/-- A node is a templated text or a list of nodes. -/
inductive Node where
  | leaf (heading : Heading) (references : List Text) (text : Text)
  | branch (heading : Heading) (references : List Text) (children : List Node)
deriving Repr

/-- A loop that carries steps in the place of a single text. -/
structure LoopWithSteps where
  step : Nat
deriving DecidableEq, Repr

namespace Node

def heading : Node → Heading
  | leaf heading _ _ => heading
  | branch heading _ _ => heading

mutual

def textNames : Node → List Text
  | leaf _ _ text => text.placeholders
  | branch _ _ children => textNamesOfAll children

def textNamesOfAll : List Node → List Text
  | [] => []
  | node :: rest => textNames node ++ textNamesOfAll rest

end

mutual

/-- The node of an action that belongs to step `step`. -/
def ofAction (step : Nat) : Action → Except LoopWithSteps Node
  | .text heading body =>
    .ok (.leaf heading (nameSet (body.placeholders ++ heading.declared)) body)
  | .steps heading children =>
    if heading.kind.isLoop then .error ⟨step⟩
    else do
      let nodes ← ofChildren step children
      pure (.branch heading (nameSet (textNamesOfAll nodes ++ heading.declared)) nodes)

def ofChildren (step : Nat) : List Action → Except LoopWithSteps (List Node)
  | [] => .ok []
  | child :: rest => do
    let node ← ofAction step child
    let nodes ← ofChildren step rest
    pure (node :: nodes)

end

def ofActionsFrom (step : Nat) : List Action → Except LoopWithSteps (List Node)
  | [] => .ok []
  | a :: rest => do
    let node ← ofAction step a
    let nodes ← ofActionsFrom (step + 1) rest
    pure (node :: nodes)

def ofActions (actions : List Action) : Except LoopWithSteps (List Node) :=
  ofActionsFrom 1 actions

/-- The inputs that nodes need: the variables of the first one that are no outputs of steps. -/
def requiredInputs : List Node → List Text
  | [] => []
  | first :: _ => first.heading.declared.filter fun name => !Step.isReference name

end Node

end PromptChain
