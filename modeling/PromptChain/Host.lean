import PromptChain.Chat
import PromptChain.FileTree
import PromptChain.Table

/-! Hosts: what a command asks of the machine that it runs on, and how a variable is found in the
environment of a process. -/
namespace PromptChain

structure Host (m : Type → Type) where
  /-- The absolute path of the current directory. -/
  currentDirectory : m (Except SystemError Path)
  /-- Whether a path leads to anything. -/
  isPresent : Path → m Bool
  /-- Whether a path leads to a file. -/
  isFile : Path → m Bool
  /-- The content of a file. -/
  read : Path → m (Except SystemError Bytes)
  /-- The paths of the files below a directory, in any order. -/
  filesBelow : Path → m (List Path)
  /-- Creates a directory and those above it. -/
  createDirectories : Path → m (Except SystemError Unit)
  /-- Writes a file. -/
  write : Path → Bytes → m (Except SystemError Unit)
  /-- The value of an environment variable. -/
  valueOf? : Text → m (Option Text)
  /-- Shows a question and takes a line of input. -/
  ask : Text → m Bytes
  /-- The time, in milliseconds after the start of 1970. -/
  now : m Int
  /-- The way to a chat service, or the causes of there being none. -/
  connect : Chat.Config → m (Except (List Text) Chat.Transport)

namespace Variables

/-- The line of a variable in the environment of a process. -/
def binding (name value : Text) : Text :=
  name ++ '=' :: value

/-- The value of a name: what follows the name and an equals sign in the first line that starts with
them. A name that has an equals sign in it reaches into a value. -/
def lookup? (name : Text) (shell : Table Text) : Option Text :=
  shell.entries.findSome? fun entry =>
    Text.after? (binding name []) (binding entry.1 entry.2)

end Variables

end PromptChain
