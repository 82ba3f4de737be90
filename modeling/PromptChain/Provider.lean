import PromptChain.Step

/-! Providers: what answers prompts. -/
namespace PromptChain

inductive ProviderError where
  | scripted
  | request (message : Text)
deriving DecidableEq, Repr

def ProviderError.diagnostic : ProviderError → Diagnostic
  | scripted => ⟨"PROVIDER_FAILED".toList, "Scripted provider failure.".toList, none⟩
  | request message => ⟨"PROVIDER_REQUEST".toList, message, none⟩

/-- A provider answers a prompt, or fails to, in the light of the prompts that it was asked before.
-/
structure Provider where
  name : Text
  reply : (earlier : List Text) → (prompt : Text) → Except ProviderError Text

namespace Provider

def echo : Provider where
  name := "echo".toList
  reply _ prompt := .ok prompt

/-- Answers with the given replies in turn, where none is a failure, and then with the prompts. -/
def scripted (replies : List (Option Text)) : Provider where
  name := "scripted".toList
  reply earlier prompt :=
    match replies[earlier.length]? with
    | some (some text) => .ok text
    | some none => .error .scripted
    | none => .ok prompt

def fixed (text : Text) : Provider where
  name := "provider".toList
  reply _ _ := .ok text

end Provider

end PromptChain
