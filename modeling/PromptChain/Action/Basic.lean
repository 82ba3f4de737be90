import PromptChain.Text.Basic

/-! Actions: what the steps of a script ask for. -/
namespace PromptChain

/-- How a step is presented: whether lists show it, and whether it instructs a model. -/
structure Rules where
  shown : Bool := true
  isPromptDirective : Bool := false
deriving DecidableEq, Repr

/-- A step asks once, or once for each item of a list. A loop may name the source of its list. -/
inductive Kind where
  | default
  | loop (source : Option Text) (aggregate : Bool)
deriving DecidableEq, Repr

namespace Kind

def name : Kind → Text
  | default => "Default".toList
  | loop _ _ => "Loop".toList

def source? : Kind → Option Text
  | default => none
  | loop source _ => source

def isLoop : Kind → Bool
  | default => false
  | loop _ _ => true

end Kind

/-- What an action and its node have in common. -/
structure Heading where
  kind : Kind
  declared : List Text
  rules : Rules
deriving DecidableEq, Repr

/-- An action carries a templated text or a list of actions. -/
inductive Action where
  | text (heading : Heading) (body : Text)
  | steps (heading : Heading) (children : List Action)
deriving Repr

def Action.heading : Action → Heading
  | .text heading _ => heading
  | .steps heading _ => heading

end PromptChain
