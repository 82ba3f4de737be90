import PromptChain.Text.Alphanumeric
import PromptChain.Variables.Lines

/-! The entries of a file of variables: names, and values that may refer to other variables. -/
namespace PromptChain.Variables

/-- A value is a row of characters and references to variables. -/
inductive Part where
  | character (c : Char)
  | reference (name : Text)
deriving DecidableEq, Repr

structure Entry where
  name : Text
  value : List Part
deriving DecidableEq, Repr

/-- Where a reader stands in a value: outside quotes, in weak or strong quotes, after a backslash,
in the name of a reference, in one in braces, or behind the value. Backslashes and references occur
both outside quotes and in weak ones. -/
inductive ValueState where
  | plain
  | weak
  | strong
  | escape (inWeak : Bool)
  | name (inWeak : Bool) (read : Text)
  | braced (inWeak : Bool) (read : Text)
  | behind
deriving DecidableEq, Repr

def ValueState.base (inWeak : Bool) : ValueState :=
  if inWeak then weak else plain

/-- The character that a backslash and a character stand for. -/
def unescaped? (c : Char) : Option Char :=
  if c = 'n' then some '\n'
  else if ['\\', '\'', '"', '$', ' '].contains c then some c
  else none

/-- The parts of a value. Quotes and braces have to be closed, and after a gap only a comment may
follow. The character that ends a name outside braces is taken as it is. -/
def parts? : ValueState → Text → Option (List Part)
  | .plain, [] => some []
  | .behind, [] => some []
  | .escape false, [] => some []
  | .name false read, [] => some [.reference read]
  | _, [] => none
  | .plain, c :: rest =>
    if c = '$' then parts? (.name false []) rest
    else if c = '\'' then parts? .strong rest
    else if c = '"' then parts? .weak rest
    else if c = '\\' then parts? (.escape false) rest
    else if c = ' ' ∨ c = '\t' then parts? .behind rest
    else (parts? .plain rest).map (.character c :: ·)
  | .weak, c :: rest =>
    if c = '$' then parts? (.name true []) rest
    else if c = '"' then parts? .plain rest
    else if c = '\\' then parts? (.escape true) rest
    else (parts? .weak rest).map (.character c :: ·)
  | .strong, c :: rest =>
    if c = '\'' then parts? .plain rest
    else (parts? .strong rest).map (.character c :: ·)
  | .escape inWeak, c :: rest =>
    match unescaped? c with
    | some d => (parts? (.base inWeak) rest).map (.character d :: ·)
    | none => none
  | .name inWeak read, c :: rest =>
    -- The name is read on, opened by a brace, or ended.
    if Text.isAlphanumeric c then parts? (.name inWeak (read ++ [c])) rest
    else if c = '{' ∧ read = [] then parts? (.braced inWeak []) rest
    else if c = '$' then (parts? (.name inWeak []) rest).map (.reference read :: ·)
    else (parts? (.base inWeak) rest).map (.reference read :: .character c :: ·)
  | .braced inWeak read, c :: rest =>
    if c = '}' then (parts? (.base inWeak) rest).map (.reference read :: ·)
    else parts? (.braced inWeak (read ++ [c])) rest
  | .behind, c :: rest =>
    if c = ' ' ∨ c = '\t' then parts? .behind rest
    else if c = '#' then some []
    else none

def startsKey (c : Char) : Bool :=
  c.isAlpha || c == '_'

def isKeyCharacter (c : Char) : Bool :=
  c.isAlphanum || c == '_' || c == '.'

/-- The name that a text starts with, and what follows it and the blanks after it. -/
def key? (t : Text) : Option (Text × Text) :=
  if t.head?.any startsKey then
    some (t.takeWhile isKeyCharacter, Text.trimStart (t.dropWhile isKeyCharacter))
  else none

def exportWord : Text :=
  "export".toList

/-- The name before an equals sign and the text after it. -/
def assignment? (t : Text) : Option (Text × Text) := do
  let (key, rest) ← key? t
  match Text.after? ['='] rest with
  | some value => pure (key, value.trimStart)
  | none =>
    if key = exportWord then do
      let (key, rest) ← key? rest
      let value ← Text.after? ['='] rest
      pure (key, value.trimStart)
    else none

inductive Content where
  | nothing
  | entry (e : Entry)
  | malformed
deriving DecidableEq, Repr

def Content.ofLine (line : Text) : Content :=
  let t := line.trim
  if t.isEmpty || t.head? == some '#' then nothing
  else
    match assignment? t with
    | none => malformed
    | some (name, value) =>
      if value.head? = some '#' then entry ⟨name, []⟩
      else
        match parts? .plain value with
        | some parts => entry ⟨name, parts⟩
        | none => malformed

/-- The entries of lines, up to the first line that is malformed. -/
def entriesOf : List Text → List Entry
  | [] => []
  | line :: rest =>
    match Content.ofLine line with
    | .nothing => entriesOf rest
    | .entry e => e :: entriesOf rest
    | .malformed => []

def entries (file : Bytes) : List Entry :=
  entriesOf (entryLines file)

end PromptChain.Variables
