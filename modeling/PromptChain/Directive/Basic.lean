import PromptChain.Text.Blank

/-! Directives: tokens that stand for longer texts, and the tidying of blanks after them. -/
namespace PromptChain

/-- A token and the text it stands for. -/
structure Directive where
  token : Text
  expansion : Text
deriving DecidableEq, Repr

namespace Directive

/-- The tokens of a table in the order in which they are tried: longer ones first. -/
def tokens (table : List Directive) : List Text :=
  (table.map Directive.token).mergeSort fun s t => decide (t.byteLength ≤ s.byteLength)

theorem exists_of_mem_tokens {table : List Directive} {token : Text} (h : token ∈ tokens table) :
    ∃ d ∈ table, d.token = token :=
  List.mem_map.1 (List.mem_mergeSort.1 h)

/-- What a token stands for: the expansion of the first entry that has it. -/
def expansionOf (table : List Directive) (token : Text) : Text :=
  match table.find? fun d => d.token == token with
  | some d => d.expansion
  | none => token

theorem exists_expansionOf_eq {table : List Directive} {token : Text}
    (h : token ∈ tokens table) : ∃ d ∈ table, expansionOf table token = d.expansion := by
  obtain ⟨d, hd, rfl⟩ := exists_of_mem_tokens h
  have hsome : (table.find? fun e => e.token == d.token).isSome = true :=
    List.find?_isSome.2 ⟨d, hd, beq_self_eq_true d.token⟩
  obtain ⟨e, he⟩ := Option.isSome_iff_exists.1 hsome
  exact ⟨e, List.mem_of_find?_eq_some he, by rw [expansionOf, he]⟩

/-- The first of the tokens that the text starts with, and what follows it. -/
def leading? (tokens : List Text) (t : Text) : Option (Text × Text) :=
  tokens.findSome? fun token =>
    if token.isEmpty then none else (Text.after? token t).map fun rest => (token, rest)

theorem of_leading? {tokens : List Text} {t token rest : Text}
    (h : leading? tokens t = some (token, rest)) :
    token ∈ tokens ∧ token ≠ [] ∧ t = token ++ rest := by
  obtain ⟨m, hmem, hm⟩ := List.exists_of_findSome?_eq_some h
  split at hm
  · cases hm
  · next hne =>
    obtain ⟨r, hr, he⟩ := Option.map_eq_some_iff.1 hm
    cases he
    exact ⟨hmem, by simpa using hne, Text.after?_eq_some_iff.1 hr⟩

theorem after?_of_leading?_eq_none {tokens : List Text} {t token : Text}
    (h : leading? tokens t = none) (hm : token ∈ tokens) (hne : token ≠ []) :
    Text.after? token t = none := by
  have hnone := List.findSome?_eq_none_iff.1 h token hm
  rwa [if_neg (by simpa using hne), Option.map_eq_none_iff] at hnone

theorem length_of_leading? {tokens : List Text} {t token rest : Text}
    (h : leading? tokens t = some (token, rest)) : rest.length < t.length := by
  obtain ⟨-, hne, rfl⟩ := of_leading? h
  have hpos : 0 < token.length := List.length_pos_iff.2 hne
  rw [List.length_append]
  omega

/-- One pass over a text that puts `expand token` in the place of each token it meets. -/
def replace (tokens : List Text) (expand : Text → Text) (t : Text) : Text :=
  match _h : leading? tokens t with
  | some (token, rest) => expand token ++ replace tokens expand rest
  | none =>
    match t with
    | [] => []
    | c :: rest => c :: replace tokens expand rest
termination_by t.length
decreasing_by
  · exact length_of_leading? _h
  · simp

def isGap (c : Char) : Bool :=
  c == ' ' || c == '\t'

/-- A text with each run of gaps made one space, where `inGap` says that a run has begun. -/
def squeezeFrom : (inGap : Bool) → Text → Text
  | _, [] => []
  | inGap, c :: t =>
    if isGap c then
      if inGap then squeezeFrom true t else ' ' :: squeezeFrom true t
    else
      c :: squeezeFrom false t

def squeeze (t : Text) : Text :=
  squeezeFrom false t

/-- Lines without an empty line after an empty line. -/
def dropRepeatedEmpty : (afterEmpty : Bool) → List Text → List Text
  | _, [] => []
  | afterEmpty, line :: lines =>
    if line.isEmpty && afterEmpty then dropRepeatedEmpty true lines
    else line :: dropRepeatedEmpty line.isEmpty lines

/-- A text whose lines have single gaps and no blanks at their ends, with at most one empty line in
a row and no blanks at its own ends. -/
def tidy (t : Text) : Text :=
  let lines := t.lines.map fun line => (squeeze line).trimEnd
  Text.trim (['\n'].intercalate (dropRepeatedEmpty false lines))

def expand (table : List Directive) (source : Text) : Text :=
  tidy (replace (tokens table) (expansionOf table) source)

end Directive

end PromptChain
