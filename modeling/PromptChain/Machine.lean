import PromptChain.Host
import PromptChain.Inputs

/-! Machines in memory: hosts whose state is a value. -/
namespace PromptChain

structure Machine where
  place : FileTree.Place
  tree : FileTree
  console : Console
  shell : Table Text
  time : Int

namespace Machine

def placePath : FileTree.Place → Except SystemError Path
  | .location names => .ok (names.foldl Path.join ['/'])
  | .removed _ => .error .noEntry

/-- Reads something off the state. -/
def view {α : Type} (f : Machine → α) : StateM Machine α := fun s => (f s, s)

def createDirectories (p : Path) : StateM Machine (Except SystemError Unit) := fun s =>
  let (result, tree) := s.tree.createDirectories s.place p
  (result, { s with tree })

def write (p : Path) (content : Bytes) : StateM Machine (Except SystemError Unit) := fun s =>
  match s.tree.write s.place p content with
  | .ok tree => (.ok (), { s with tree })
  | .error e => (.error e, s)

/-- Shows a question on the console and takes a line from it. -/
def ask (question : Text) : StateM Machine Bytes := fun s =>
  let (line, console) := Console.ask question s.console
  (line, { s with console })

/-- The operations of a machine in memory, from which no request can be sent. -/
def host : Host (StateM Machine) where
  currentDirectory := view fun s => placePath s.place
  isPresent p := view fun s => (s.tree.entry? s.place p).isSome
  isFile p := view fun s => s.tree.isFile s.place p
  read p := view fun s => s.tree.read s.place p
  filesBelow p := view fun s => s.tree.filesBelow s.place p
  createDirectories := createDirectories
  write := write
  valueOf? name := view fun s => Variables.lookup? name s.shell
  ask := ask
  now := view fun s => s.time
  connect _ := pure (.ok Chat.offline)

end Machine

end PromptChain
