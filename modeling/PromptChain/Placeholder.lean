import PromptChain.Text.Basic

/-! Placeholders: names in double braces, and texts cut into characters and placeholders. -/
namespace PromptChain

def isNameCharacter (c : Char) : Bool :=
  c != '{' && c != '}' && c != '\n'

/-- A text is a row of pieces: single characters and whole placeholders. -/
inductive Piece where
  | character (c : Char)
  | placeholder (name : Text)
deriving DecidableEq, Repr

/-- The piece as it is written. -/
def Piece.source : Piece → Text
  | .character c => [c]
  | .placeholder name => ['{', '{'] ++ name ++ ['}', '}']

def Piece.name? : Piece → Option Text
  | .character _ => none
  | .placeholder name => some name

namespace Text

/-- The placeholder that the text starts with: its name and what follows it. -/
def placeholder? : Text → Option (Text × Text)
  | '{' :: '{' :: t =>
    match t.dropWhile isNameCharacter with
    | '}' :: '}' :: rest => some (t.takeWhile isNameCharacter, rest)
    | _ => none
  | _ => none

theorem eq_of_placeholder? {t name rest : Text} (h : placeholder? t = some (name, rest)) :
    t = (Piece.placeholder name).source ++ rest := by
  unfold placeholder? at h
  split at h
  · next u =>
    split at h
    · next r hd =>
      simp only [Option.some.injEq, Prod.mk.injEq] at h
      obtain ⟨rfl, rfl⟩ := h
      have hu := List.takeWhile_append_dropWhile (p := isNameCharacter) (l := u)
      rw [hd] at hu
      simp [Piece.source, hu]
    · cases h
  · cases h

theorem length_of_placeholder? {t name rest : Text} (h : placeholder? t = some (name, rest)) :
    rest.length < t.length := by
  rw [eq_of_placeholder? h, List.length_append]
  simp [Piece.source]

/-- The pieces of a text: from the left, a placeholder wherever one starts, else a character. -/
def pieces (t : Text) : List Piece :=
  match _h : placeholder? t with
  | some (name, rest) => .placeholder name :: pieces rest
  | none =>
    match t with
    | [] => []
    | c :: rest => .character c :: pieces rest
termination_by t.length
decreasing_by
  · exact length_of_placeholder? _h
  · simp

def ofPieces (ps : List Piece) : Text :=
  ps.flatMap Piece.source

/-- Cutting a text into pieces loses nothing. -/
theorem ofPieces_pieces (t : Text) : ofPieces (pieces t) = t := by
  fun_induction pieces t with
  | case1 t name rest h ih =>
    rw [eq_of_placeholder? h]
    simp only [ofPieces, List.flatMap_cons] at ih ⊢
    rw [ih]
  | case2 => rfl
  | case3 c rest h ih =>
    simp only [ofPieces, List.flatMap_cons] at ih ⊢
    rw [ih]
    rfl

/-- The names of the placeholders of a text, from left to right. -/
def placeholders (t : Text) : List Text :=
  t.pieces.filterMap Piece.name?

/-- The names of the placeholders of a text, each at its first appearance only. -/
def declared (t : Text) : List Text :=
  t.placeholders.eraseDups

end Text

/-- A placeholder at its place, with offsets counted in UTF-8. -/
structure Occurrence where
  name : Text
  start : Nat
  stop : Nat
deriving DecidableEq, Repr

/-- The placeholders of a row of pieces that starts at the given offset. -/
def occurrencesFrom : Nat → List Piece → List Occurrence
  | _, [] => []
  | offset, piece :: rest =>
    let stop := offset + piece.source.byteLength
    match piece with
    | .character _ => occurrencesFrom stop rest
    | .placeholder name => ⟨name, offset, stop⟩ :: occurrencesFrom stop rest

def Text.occurrences (t : Text) : List Occurrence :=
  occurrencesFrom 0 t.pieces

end PromptChain
