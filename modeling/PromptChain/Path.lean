import PromptChain.Text.Basic

/-! Paths: texts whose parts are divided by slashes. -/
namespace PromptChain

/-- A path as it is written. -/
abbrev Path := Text

namespace Path

def here : Text :=
  ['.']

def above : Text :=
  ['.', '.']

def isAbsolute (p : Path) : Bool :=
  p.head? == some '/'

def endsInSlash (p : Path) : Bool :=
  p.getLast? == some '/'

/-- A path below another one. An absolute path stays as it is. -/
def join (base p : Path) : Path :=
  if isAbsolute p then p
  else if base.isEmpty || endsInSlash base then base ++ p
  else base ++ '/' :: p

/-- The texts between the slashes, some of them empty. -/
def cut : Path → List Text
  | [] => [[]]
  | c :: rest => if c = '/' then [] :: cut rest else Text.push c (cut rest)

def parts (p : Path) : List Text :=
  (cut p).filter fun part => !part.isEmpty

/-- The parts of a path that count: `.` is left out unless a relative path starts with it, and the
root is a part of its own. -/
def components (p : Path) : List Text :=
  let counting (parts : List Text) := parts.filter (· != here)
  if isAbsolute p then ['/'] :: counting (parts p)
  else
    match parts p with
    | [] => []
    | first :: rest => if first = here then here :: counting rest else first :: counting rest

def ofComponents : List Text → Path
  | [] => []
  | first :: rest => rest.foldl join first

def fileName? (p : Path) : Option Text :=
  match (components p).getLast? with
  | some name => if name = here ∨ name = above ∨ name = ['/'] then none else some name
  | none => none

/-- What follows the last point of the file name. A name has no extension if its only point comes
first. -/
def extension? (p : Path) : Option Text := do
  let name ← fileName? p
  let reversed := name.reverse
  match reversed.dropWhile (· != '.') with
  | [] => none
  | [_] => none
  | _ => some (reversed.takeWhile (· != '.')).reverse

/-- The paths of the first `count` components or fewer, longest first. -/
def heads (components : List Text) : (count : Nat) → List Path
  | 0 => []
  | count + 1 => ofComponents (components.take (count + 1)) :: heads components count

/-- A path and the directories above it that it names, without the root and the current directory's
empty path. -/
def ancestors (p : Path) : List Path :=
  let cs := components p
  -- The root of an absolute path is a component that needs no creating.
  let named := if isAbsolute p then cs.length - 1 else cs.length
  if named = 0 then [] else p :: (heads cs (cs.length - 1)).filter (· != ['/'])

end Path

end PromptChain
