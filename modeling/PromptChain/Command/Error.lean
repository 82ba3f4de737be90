import PromptChain.FileTree
import PromptChain.Inputs
import PromptChain.Chat
import PromptChain.Script

/-! Why commands fail, and how that is told. -/
namespace PromptChain

def scriptExtension : Text :=
  "heroml".toList

inductive CommandError where
  | sourcePath (e : SystemError)
  | noScript (path : Path)
  | noPath (path : Path)
  | wrongExtension (path : Path)
  | noScriptsBelow (path : Path)
  | unreadable (e : SystemError)
  | compile (e : CompileError)
  | config (e : Chat.ConfigError)
  | input (e : InputError)
  | run (f : Failure)
  | save (e : SystemError)

namespace CommandError

def diagnostic : CommandError → Diagnostic
  | sourcePath e => ⟨"CLI_SOURCE_PATH".toList, e.message, none⟩
  | noScript path =>
    ⟨"CLI_SOURCE_NOT_FOUND".toList, "Script file does not exist: ".toList ++ path, none⟩
  | noPath path => ⟨"CLI_SOURCE_NOT_FOUND".toList, "Path does not exist: ".toList ++ path, none⟩
  | wrongExtension path =>
    ⟨"CLI_SOURCE_EXTENSION".toList,
      "Script file must have a .".toList ++ scriptExtension ++ " extension: ".toList ++ path, none⟩
  | noScriptsBelow path =>
    ⟨"CLI_SOURCE_EMPTY".toList,
      "No .".toList ++ scriptExtension ++ " files found under ".toList ++ path, none⟩
  | unreadable e => ⟨"CLI_SOURCE_READ".toList, e.message, none⟩
  | compile e => e.diagnostic
  | config e => e.diagnostic
  | input e => e.diagnostic
  | run f => f.diagnostic
  | save e => ⟨"CLI_OUTPUT_WRITE".toList, e.message, none⟩

end CommandError

def reportLine (label content : Text) : Text :=
  label ++ ':' :: content ++ ['\n']

/-- What is printed about an error, one fact on a line. -/
def Diagnostic.report (d : Diagnostic) : Text :=
  reportLine "RESULT".toList "ERROR".toList ++ reportLine "ERROR_CODE".toList d.code ++
    (match d.step with
      | some step => reportLine "ERROR_STEP".toList (Text.ofNat step)
      | none => []) ++
    reportLine "ERROR_MSG_JSON".toList (Json.quote d.message)

end PromptChain
