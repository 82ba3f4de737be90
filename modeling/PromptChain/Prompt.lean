import PromptChain.Environment
import PromptChain.Placeholder
import PromptChain.Step

/-! Prompts: templated texts with their placeholders filled in. -/
namespace PromptChain

/-- Placeholders are filled in two passes: free names first, then names of outputs. -/
inductive Pass where
  | free
  | step
deriving DecidableEq, Repr

def Pass.accepts : Pass → Text → Bool
  | free, name => !Step.isReference name
  | step, name => Step.isReference name

structure UndefinedVariable where
  name : Text
deriving DecidableEq, Repr

/-- What a pass makes of a piece of text. -/
def Piece.fill (pass : Pass) (resolve : Text → Option Value) :
    Piece → Except UndefinedVariable Text
  | character c => .ok [c]
  | placeholder name =>
    if pass.accepts name then
      match resolve name with
      | some value => .ok value.promptText
      | none => .error ⟨name⟩
    else .ok (placeholder name).source

/-- Fills pieces from left to right, up to the first name that has no value. -/
def fillPieces (pass : Pass) (resolve : Text → Option Value) :
    List Piece → Except UndefinedVariable Text
  | [] => .ok []
  | piece :: rest => do
    let filled ← piece.fill pass resolve
    let others ← fillPieces pass resolve rest
    pure (filled ++ others)

def substitute (pass : Pass) (resolve : Text → Option Value) (t : Text) :
    Except UndefinedVariable Text :=
  fillPieces pass resolve t.pieces

/-- The prompt of a templated text. Free names have the values of `bindings` before those of the
environment; names of outputs have the values of the environment only. -/
def render (e : Environment) (bindings : Table Value) (t : Text) :
    Except UndefinedVariable Text := do
  let filled ← substitute .free (fun name => (bindings.get? name).or (e.get? name)) t
  substitute .step (fun name => e.get? name) filled

end PromptChain
