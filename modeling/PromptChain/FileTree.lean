import PromptChain.Path
import PromptChain.Text.Utf8

/-! Trees of files, and what happens to a path in them. -/
namespace PromptChain

inductive SystemError where
  | noEntry
  | exists
  | notDirectory
  | isDirectory
  | nameTooLong
  | nulInName
  | notText
  | other (message : Text)
deriving DecidableEq, Repr

def SystemError.message : SystemError → Text
  | noEntry => "No such file or directory (os error 2)".toList
  | .exists => "File exists (os error 17)".toList
  | notDirectory => "Not a directory (os error 20)".toList
  | isDirectory => "Is a directory (os error 21)".toList
  | nameTooLong => "File name too long (os error 36)".toList
  | nulInName => "file name contained an unexpected NUL byte".toList
  | notText => "stream did not contain valid UTF-8".toList
  | other message => message

/-- What a path leads to. -/
inductive Entry where
  | file (content : Bytes)
  | directory
deriving DecidableEq, Repr

/-- The names that lead from the root to an entry. -/
abbrev Location := List Text

/-- Entries at their locations. The root is a directory in every tree. -/
abbrev FileTree := List (Location × Entry)

namespace FileTree

def get? (tree : FileTree) (location : Location) : Option Entry :=
  if location.isEmpty then some .directory else tree.lookup location

def put (location : Location) (entry : Entry) : FileTree → FileTree
  | [] => [(location, entry)]
  | (other, old) :: rest =>
    if other = location then (location, entry) :: rest else (other, old) :: put location entry rest

/-- Where a path leads to: a location, or a directory that was removed, which holds nothing and
still knows the directory that it was in. -/
inductive Place where
  | location (names : Location)
  | removed (above : Location)
deriving DecidableEq, Repr

def nameLimit : Nat :=
  255

def pathLimit : Nat :=
  4095

def Place.above : Place → Place
  | .location names => .location names.dropLast
  | .removed above => .location above

/-- The location of a name in a directory. -/
def Place.enter (name : Text) : Place → Except SystemError Location
  | .location names =>
    if nameLimit < name.byteLength then .error .nameTooLong else .ok (names ++ [name])
  | .removed _ => .error .noEntry

def checkDirectory (tree : FileTree) : Place → Except SystemError Unit
  | .removed _ => .ok ()
  | .location names =>
    match tree.get? names with
    | none => .error .noEntry
    | some (.file _) => .error .notDirectory
    | some .directory => .ok ()

/-- Follows parts of a path from a place. All but the last of them have to lead to directories. -/
def follow (tree : FileTree) : Place → List Text → Except SystemError Place
  | place, [] => .ok place
  | place, part :: rest => do
    tree.checkDirectory place
    if part = Path.here then follow tree place rest
    else if part = Path.above then follow tree place.above rest
    else follow tree (.location (← place.enter part)) rest

/-- Where the parts of a path are followed from, if the path can be one. -/
def origin (place : Place) (p : Path) : Except SystemError Place :=
  if Text.hasNul p then .error .nulInName
  else if pathLimit < p.byteLength then .error .nameTooLong
  else if p.isEmpty then .error .noEntry
  else if Path.isAbsolute p then .ok (.location [])
  else .ok place

/-- The place that a path leads to, whether something is there or not. A slash at the end asks for a
directory. -/
def locate (tree : FileTree) (place : Place) (p : Path) : Except SystemError Place := do
  let start ← origin place p
  tree.follow start (Path.parts p ++ if Path.endsInSlash p then [Path.here] else [])

def entryAt? (tree : FileTree) : Place → Option Entry
  | .location names => tree.get? names
  | .removed _ => some .directory

def entry? (tree : FileTree) (place : Place) (p : Path) : Option Entry :=
  match tree.locate place p with
  | .ok found => tree.entryAt? found
  | .error _ => none

def isDirectory (tree : FileTree) (place : Place) (p : Path) : Bool :=
  tree.entry? place p == some .directory

def isFile (tree : FileTree) (place : Place) (p : Path) : Bool :=
  match tree.entry? place p with
  | some (.file _) => true
  | _ => false

def read (tree : FileTree) (place : Place) (p : Path) : Except SystemError Bytes := do
  let found ← tree.locate place p
  match tree.entryAt? found with
  | none => throw .noEntry
  | some .directory => throw .isDirectory
  | some (.file content) => pure content

/-- The directory that a path's last part belongs to, and that part. There is no such part in a path
of slashes. -/
def parent (tree : FileTree) (place : Place) (p : Path) :
    Except SystemError (Place × Option Text) := do
  let start ← origin place p
  let parts := Path.parts p
  let directory ← tree.follow start parts.dropLast
  tree.checkDirectory directory
  pure (directory, parts.getLast?)

/-- Whether a part names an entry of its own. -/
def isName (part : Text) : Bool :=
  part != Path.here && part != Path.above

def createDirectory (place : Place) (p : Path) (tree : FileTree) : Except SystemError FileTree := do
  match ← tree.parent place p with
  | (_, none) => throw .exists
  | (directory, some name) =>
    if !isName name then throw .exists
    let location ← directory.enter name
    if (tree.get? location).isSome then throw .exists
    pure (tree.put location .directory)

def ensureDirectory (place : Place) (p : Path) (tree : FileTree) :
    Except SystemError Unit × FileTree :=
  match createDirectory place p tree with
  | .ok tree => (.ok (), tree)
  | .error e => if e = .exists ∧ tree.isDirectory place p then (.ok (), tree) else (.error e, tree)

/-- Creates the first of the paths after those that follow it, as far as they are missing. -/
def createAll (place : Place) : List Path → FileTree → Except SystemError Unit × FileTree
  | [], tree => (.ok (), tree)
  | p :: above, tree =>
    match ensureDirectory place p tree with
    -- Any other error is final, whatever is missing above.
    | (.error .noEntry, _) =>
      match createAll place above tree with
      | (.error e, tree) => (.error e, tree)
      | (.ok (), tree) => ensureDirectory place p tree
    | done => done

def createDirectories (place : Place) (p : Path) (tree : FileTree) :
    Except SystemError Unit × FileTree :=
  createAll place (Path.ancestors p) tree

/-- Writes a file, new or in the place of the old one. -/
def write (place : Place) (p : Path) (content : Bytes) (tree : FileTree) :
    Except SystemError FileTree := do
  match ← tree.parent place p with
  | (_, none) => throw .isDirectory
  | (directory, some name) =>
    if !isName name || Path.endsInSlash p then throw .isDirectory
    let location ← directory.enter name
    if tree.get? location = some .directory then throw .isDirectory
    pure (tree.put location (.file content))

/-- The names below a location that lead to another one. -/
def below? : Location → Location → Option Location
  | [], names => some names
  | _ :: _, [] => none
  | a :: as, b :: bs => if a = b then below? as bs else none

def filesBelow (tree : FileTree) (place : Place) (p : Path) : List Path :=
  match tree.locate place p with
  | .error _ => []
  | .ok (.removed _) => []
  | .ok (.location names) =>
    tree.filterMap fun (other, entry) =>
      match entry, below? names other with
      | .file _, some rest => some (rest.foldl Path.join p)
      | _, _ => none

end FileTree

end PromptChain
