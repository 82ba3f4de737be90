import PromptChain.Action.Basic
import PromptChain.Placeholder
import PromptChain.Step

/-! The verdict on a list of actions: every name a step uses is known before the step. -/
namespace PromptChain

inductive Violation where
  | emptyText
  | missingUnderscore
  | negativeNumber
  | incorrectStem
  | incorrectNumber
deriving DecidableEq, Repr

def Violation.code : Violation → Text
  | emptyText => "empty_string".toList
  | missingUnderscore => "missing_underscore".toList
  | negativeNumber => "negative_number".toList
  | incorrectStem => "incorrect_prefix".toList
  | incorrectNumber => "incorrect_number".toList

/-- A list of actions is valid, or fails as a whole, or at one of its steps. -/
inductive Verdict where
  | valid
  | noActions
  | noVariables
  | rejected (step : Nat) (violation : Violation)
deriving DecidableEq, Repr

namespace Verdict

def code : Verdict → Text
  | valid => "valid".toList
  | noActions => "no_actions".toList
  | noVariables => "no_vars_in_first_step".toList
  | rejected step violation => Step.outputKey step ++ '_' :: violation.code

def step? : Verdict → Option Nat
  | rejected step _ => some step
  | _ => none

end Verdict

/-- What is wrong with a name at a step where the names `known` may be used. A name that is not
among them has to be `step_` and the number of an earlier step. -/
def nameViolation? (step : Nat) (known : List Text) (name : Text) : Option Violation :=
  if known.contains name then none
  else
    match name.dropWhile (· != '_') with
    | [] => some .missingUnderscore
    | _ :: number =>
      -- A hyphen counts before a wrong stem.
      if '-' ∈ number then some .negativeNumber
      else if name.takeWhile (· != '_') ≠ Step.outputStem then some .incorrectStem
      else
        match Text.word? number with
        | some index => if 1 ≤ index ∧ index < step then none else some .incorrectNumber
        | none => some .incorrectNumber

/-- What is wrong with a prompt: it is blank, or it uses a name that it may not use. -/
def promptViolation? (step : Nat) (known : List Text) (prompt : Text) : Option Violation :=
  if prompt.allBlank then some .emptyText
  else prompt.placeholders.findSome? (nameViolation? step known)

/-- The texts of an action that are checked: its own, or those of its direct children. -/
def Action.checkedTexts : Action → List Text
  | .text _ body => [body]
  | .steps _ children => children.filterMap fun
    | .text _ body => some body
    | .steps _ _ => none

/-- The first thing wrong with an action: in its texts, then in the source of its list. -/
def Action.violation? (step : Nat) (known : List Text) (a : Action) : Option Violation :=
  (a.checkedTexts.findSome? (promptViolation? step known)).or
    (a.heading.kind.source?.bind (nameViolation? step known))

def addName (known : List Text) (name : Text) : List Text :=
  if known.contains name then known else known ++ [name]

/-- The verdict on the actions from step `n` on. Each step makes its output known. -/
def verdictFrom (known : List Text) : Nat → List Action → Verdict
  | _, [] => .valid
  | n, a :: rest =>
    match a.violation? n known with
    | some violation => .rejected n violation
    | none => verdictFrom (addName known (Step.outputKey n)) (n + 1) rest

/-- The verdict on a list of actions. The first one declares the variables of the script. -/
def Verdict.ofActions : List Action → Verdict
  | [] => .noActions
  | first :: rest =>
    if first.heading.declared.isEmpty then .noVariables
    else verdictFrom first.heading.declared 1 (first :: rest)

end PromptChain
