import PromptChain.Host
import PromptChain.Variables.Entry

/-! Variables of the environment, and files that add to them. -/
namespace PromptChain.Variables

def fileName : Path :=
  ".env".toList

variable {m : Type → Type} [Monad m]

def firstFile (host : Host m) : List Path → m Bytes
  | [] => pure []
  | p :: rest => do
    if ← host.isFile p then
      match ← host.read p with
      | .ok bytes => pure bytes
      | .error _ => pure []
    else firstFile host rest

/-- Where a file of variables may be: in the current directory or in one above it. -/
def candidates (directory : Path) : List Path :=
  ((Path.ancestors directory) ++ [['/']]).map fun p => Path.join p fileName

/-- The value of a name: that of the environment before that of a file. -/
def value? (host : Host m) (file : Table Text) (name : Text) : m (Option Text) := do
  return (← host.valueOf? name).or (lookup? name file)

/-- The text of a part of a value. A variable without a value stands for nothing. -/
def partText (host : Host m) (file : Table Text) : Part → m Text
  | .character c => pure [c]
  | .reference name => do return (← value? host file name).getD []

/-- A variable that no environment can hold, since there is a NUL character in its value. -/
structure Unsettable where
  name : Text
deriving DecidableEq, Repr

/-- Adds an entry of a file, unless its name has a value already. -/
def define (host : Host m) (file : Table Text) (e : Entry) :
    m (Except Unsettable (Table Text)) := do
  let texts ← e.value.mapM (partText host file)
  if (← value? host file e.name).isSome then return .ok file
  else if Text.hasNul texts.flatten then return .error ⟨e.name⟩
  else return .ok (file.insert e.name texts.flatten)

def defineAll (host : Host m) : List Entry → Table Text → m (Except Unsettable (Table Text))
  | [], file => pure (.ok file)
  | e :: rest, file => do
    match ← define host file e with
    | .ok file => defineAll host rest file
    | .error cause => pure (.error cause)

def fromFile (host : Host m) : m (Except Unsettable (Table Text)) := do
  match ← host.currentDirectory with
  | .ok directory => defineAll host (entries (← firstFile host (candidates directory))) ∅
  | .error _ => return .ok ∅

def load (host : Host m) (names : List Text) : m (Except Unsettable (Table Text)) := do
  match ← fromFile host with
  | .error cause => return .error cause
  | .ok file =>
    let found ← names.mapM fun name => do
      return (← value? host file name).map fun value => (name, value)
    return .ok (Table.ofList (found.filterMap id))

end PromptChain.Variables
