import PromptChain.Text.Blank
import PromptChain.Text.Utf8

/-! The lines of a file of variables: quotes reach over the ends of lines, and comments are cut off.
-/
namespace PromptChain.Variables

/-- Where a reader stands in a line: in plain text, right after a blank, in weak (double) or strong
(single) quotes, or right after a backslash in any of them. -/
inductive LineState where
  | plain
  | gap
  | escape
  | weak
  | weakEscape
  | strong
  | strongEscape
deriving DecidableEq, Repr

namespace LineState

def outside (afterBlank : LineState) (c : Char) : LineState :=
  if c = '\\' then escape
  else if c = '"' then weak
  else if c = '\'' then strong
  else if Text.isBlank c && c != '\n' && c != '\r' then afterBlank
  else plain

/-- What a character leads to; none if it starts a comment. A second blank ends a gap. -/
def next? : LineState → Char → Option LineState
  | plain, c => some (outside gap c)
  | gap, c => if c = '#' then none else some (outside plain c)
  | escape, _ => some plain
  | weak, c => some (if c = '\\' then weakEscape else if c = '"' then plain else weak)
  | weakEscape, _ => some weak
  | strong, c => some (if c = '\\' then strongEscape else if c = '\'' then plain else strong)
  | strongEscape, _ => some strong

/-- The part of a line before a comment, and the state at the end of a line without one. -/
def read : LineState → Text → Text × Option LineState
  | state, [] => ([], some state)
  | state, c :: rest =>
    match state.next? c with
    | none => ([], none)
    | some state =>
      let (kept, last) := state.read rest
      (c :: kept, last)

end LineState

def cutLines : Bytes → List Bytes
  | [] => []
  | b :: rest =>
    if b = 10 then [b] :: cutLines rest
    else
      match cutLines rest with
      | [] => [[b]]
      | line :: lines => (b :: line) :: lines

/-- Joins lines as long as a quote is open, where `pending` is what was joined so far. The lines end
at the first one that is no text. -/
def joinLines : (pending : Text) → LineState → List (Option Text) → List Text
  | _, _, [] => []
  | _, _, none :: _ => []
  | pending, state, some line :: rest =>
    if (pending ++ line).trimStart.head? = some '#' then joinLines [] .plain rest
    else
      match state.read line with
      | (kept, none) => (pending ++ kept) :: joinLines [] .plain rest
      | (_, some .plain) => (pending ++ line) :: joinLines [] .plain rest
      -- A gap keeps a line open too, so that a last line which ends in a blank is lost.
      | (_, some state) => joinLines (pending ++ line) state rest

/-- The bytes of a file without the mark that shows its encoding. -/
def withoutMark : Bytes → Bytes
  | 0xEF :: 0xBB :: 0xBF :: rest => rest
  | bytes => bytes

def entryLines (file : Bytes) : List Text :=
  joinLines [] .plain ((cutLines (withoutMark file)).map Utf8.decode?)

end PromptChain.Variables
