import PromptChain.Command.Execute
import Std.Time.DateTime

/-! The command line: commands on the machine that the program runs on. -/
namespace PromptChain.Main

def systemError : IO.Error → SystemError
  | .noFileOrDirectory _ _ _ => .noEntry
  | .alreadyExists _ _ _ => .exists
  | .inappropriateType _ 20 _ => .notDirectory
  | .inappropriateType _ 21 _ => .isDirectory
  | .invalidArgument _ 36 _ => .nameTooLong
  | e => .other (toString e).toList

/-- The result of an operation, or the cause of its failure. -/
def attempt {α : Type} (x : IO α) : IO (Except SystemError α) := do
  try
    return .ok (← x)
  catch e =>
    return .error (systemError e)

def fileType? (p : Path) : IO (Option IO.FS.FileType) := do
  try
    let found ← IO.FS.realPath (String.ofList p)
    return some (← found.metadata).type
  catch _ =>
    return none

partial def filesBelow (p : Path) : IO (List Path) := do
  try
    let found ← IO.FS.realPath (String.ofList p)
    let entries ← found.readDir
    let below ← entries.toList.mapM fun entry => do
      let path := Path.join p entry.fileName.toList
      match ← fileType? path with
      | some .dir => filesBelow path
      | some .file => return [path]
      | _ => return []
    return below.flatten
  catch _ =>
    return []

/-- Reads the bytes of a line, up to and including its line feed. -/
partial def readLine (input : IO.FS.Stream) (line : Bytes) : IO Bytes := do
  let next ← input.read 1
  match next.toList with
  | [] => return line.reverse
  | b :: _ => if b = 10 then return (b :: line).reverse else readLine input (b :: line)

/-- Shows a question on the error channel and takes a line of the input. -/
def ask (question : Text) : IO Bytes := do
  let shown ← IO.getStderr
  shown.putStr (String.ofList question)
  shown.flush
  readLine (← IO.getStdin) []

/-- The machine that the program runs on. It has no way to send requests. -/
def host : Host IO where
  currentDirectory := attempt do return (← IO.currentDir).toString.toList
  isPresent p := do return (← fileType? p).isSome
  isFile p := do return (← fileType? p) == some .file
  read p := attempt do return (← IO.FS.readBinFile (String.ofList p)).toList
  filesBelow := filesBelow
  createDirectories p := attempt do
    if !p.isEmpty then IO.FS.createDirAll (String.ofList p)
  write p content := attempt (IO.FS.writeBinFile (String.ofList p) ⟨content.toArray⟩)
  valueOf? name := do
    if Text.hasNul name then return none
    return (← IO.getEnv (String.ofList name)).map String.toList
  ask := ask
  now := do return (← Std.Time.Timestamp.now).toMillisecondsSinceUnixEpoch.val
  connect _ := return .ok Chat.offline

def usage : String :=
  "usage: heroml run FILE [-o DIR] [-f NAME] [--var NAME=VALUE]... [--provider openai|echo]\n" ++
  "                  [--model NAME] [--timeout-secs N] [--no-prompt]\n" ++
  "       heroml check PATH\n" ++
  "       heroml inputs FILE\n"

end PromptChain.Main

def main (args : List String) : IO UInt32 := do
  let outcome ← PromptChain.Command.execute PromptChain.Main.host (args.map String.toList)
  if outcome.exitCode = PromptChain.Command.usageCode then
    IO.eprint PromptChain.Main.usage
  if outcome.exitCode = PromptChain.Command.abortCode then
    IO.eprint "a variable of the file .env has a NUL character in its value\n"
  IO.print (String.ofList outcome.printed)
  return outcome.exitCode.toUInt32
