import PromptChain.Text.Basic

/-! JSON texts as they are written: the grammar, before anything is asked of numbers, strings or
nesting. -/
namespace PromptChain.Json

/-- What a reader sees: a character, or `none` where a byte belongs to no character. -/
abbrev Symbol := Option Char

/-- A part of a string: a symbol that stands for itself, an escaped character, or an escaped unit of
16 bits. -/
inductive StringPart where
  | plain (s : Symbol)
  | escaped (c : Char)
  | unit (n : Nat)
deriving DecidableEq, Repr

/-- A number as it is written. No digits of a fraction mean that it has none; an exponent has a sign
and digits. -/
structure Numeral where
  negative : Bool
  whole : Text
  fraction : Text
  exponent : Option (Bool × Text)
deriving DecidableEq, Repr

/-- A JSON text as it is written. -/
inductive Raw where
  | null
  | bool (b : Bool)
  | number (n : Numeral)
  | string (parts : List StringPart)
  | array (items : List Raw)
  | object (members : List (List StringPart × Raw))
deriving Repr

namespace Raw

def isBlank (s : Symbol) : Bool :=
  s == some ' ' || s == some '\t' || s == some '\n' || s == some '\r'

def skip (s : List Symbol) : List Symbol :=
  s.dropWhile isBlank

def digits : List Symbol → Text × List Symbol
  | some c :: rest =>
    if c.isDigit then
      let (ds, rest') := digits rest
      (c :: ds, rest')
    else ([], some c :: rest)
  | s => ([], s)

/-- What follows a word, if the source starts with it. -/
def word? : Text → List Symbol → Option (List Symbol)
  | [], s => some s
  | c :: cs, some d :: s => if c = d then word? cs s else none
  | _ :: _, _ => none

def hexDigit? (c : Char) : Option Nat :=
  if '0' ≤ c ∧ c ≤ '9' then some (c.toNat - '0'.toNat)
  else if 'a' ≤ c ∧ c ≤ 'f' then some (c.toNat - 'a'.toNat + 10)
  else if 'A' ≤ c ∧ c ≤ 'F' then some (c.toNat - 'A'.toNat + 10)
  else none

def unit? (a b c d : Char) : Option Nat := do
  let a ← hexDigit? a
  let b ← hexDigit? b
  let c ← hexDigit? c
  let d ← hexDigit? d
  pure (((a * 16 + b) * 16 + c) * 16 + d)

/-- The character that a letter after a backslash stands for. -/
def escape? : Char → Option Char
  | '"' => some '"'
  | '\\' => some '\\'
  | '/' => some '/'
  | 'b' => some '\x08'
  | 'f' => some '\x0c'
  | 'n' => some '\n'
  | 'r' => some '\r'
  | 't' => some '\t'
  | _ => none

/-- The parts of a string up to its closing quote, and what follows the quote. A control character
has to be escaped. -/
def string? : List Symbol → Option (List StringPart × List Symbol)
  | [] => none
  | some '"' :: rest => some ([], rest)
  | some '\\' :: some 'u' :: some a :: some b :: some c :: some d :: rest => do
    let n ← unit? a b c d
    let (parts, rest') ← string? rest
    pure (.unit n :: parts, rest')
  | some '\\' :: some e :: rest => do
    let c ← escape? e
    let (parts, rest') ← string? rest
    pure (.escaped c :: parts, rest')
  | some '\\' :: _ => none
  | some c :: rest =>
    if c.toNat < 0x20 then none
    else do
      let (parts, rest') ← string? rest
      pure (.plain (some c) :: parts, rest')
  | none :: rest => do
    let (parts, rest') ← string? rest
    pure (.plain none :: parts, rest')

/-- The fraction of a number. After a point there is a digit. -/
def fraction? : List Symbol → Option (Text × List Symbol)
  | some '.' :: s =>
    match digits s with
    | ([], _) => none
    | found => some found
  | s => some ([], s)

def exponentDigits? (negative : Bool) (s : List Symbol) :
    Option (Option (Bool × Text) × List Symbol) :=
  match digits s with
  | ([], _) => none
  | (ds, rest) => some (some (negative, ds), rest)

def exponent? : List Symbol → Option (Option (Bool × Text) × List Symbol)
  | some c :: s =>
    if c = 'e' ∨ c = 'E' then
      match s with
      | some '+' :: s => exponentDigits? false s
      | some '-' :: s => exponentDigits? true s
      | s => exponentDigits? false s
    else some (none, some c :: s)
  | s => some (none, s)

/-- A number without its sign. A zero at the start stands alone. -/
def unsigned? (negative : Bool) (s : List Symbol) : Option (Numeral × List Symbol) := do
  let (whole, s) := digits s
  match whole with
  | [] => none
  | '0' :: _ :: _ => none
  | _ =>
    let (fraction, s) ← fraction? s
    let (exponent, s) ← exponent? s
    pure (⟨negative, whole, fraction, exponent⟩, s)

mutual

/-- The value at the start of a source, and what follows it. The fuel bounds the number of steps. -/
def value? : (fuel : Nat) → List Symbol → Option (Raw × List Symbol)
  | 0, _ => none
  | fuel + 1, s =>
    match skip s with
    | some '"' :: rest => (string? rest).map fun (parts, rest) => (.string parts, rest)
    | some '[' :: rest =>
      match skip rest with
      | some ']' :: rest => some (.array [], rest)
      | rest => (items? fuel rest).map fun (items, rest) => (.array items, rest)
    | some '{' :: rest =>
      match skip rest with
      | some '}' :: rest => some (.object [], rest)
      | rest => (members? fuel rest).map fun (members, rest) => (.object members, rest)
    | some '-' :: rest => (unsigned? true rest).map fun (n, rest) => (.number n, rest)
    | some 'n' :: rest => (word? ['u', 'l', 'l'] rest).map fun rest => (.null, rest)
    | some 't' :: rest => (word? ['r', 'u', 'e'] rest).map fun rest => (.bool true, rest)
    | some 'f' :: rest => (word? ['a', 'l', 's', 'e'] rest).map fun rest => (.bool false, rest)
    | rest => (unsigned? false rest).map fun (n, rest) => (.number n, rest)

def items? : (fuel : Nat) → List Symbol → Option (List Raw × List Symbol)
  | 0, _ => none
  | fuel + 1, s => do
    let (item, rest) ← value? fuel s
    match skip rest with
    | some ',' :: rest => do
      let (items, rest) ← items? fuel rest
      pure (item :: items, rest)
    | some ']' :: rest => pure ([item], rest)
    | _ => none

def members? : (fuel : Nat) → List Symbol → Option (List (List StringPart × Raw) × List Symbol)
  | 0, _ => none
  | fuel + 1, s =>
    match skip s with
    | some '"' :: rest => do
      let (name, rest) ← string? rest
      match skip rest with
      | some ':' :: rest => do
        let (value, rest) ← value? fuel rest
        match skip rest with
        | some ',' :: rest => do
          let (members, rest) ← members? fuel rest
          pure ((name, value) :: members, rest)
        | some '}' :: rest => pure ([(name, value)], rest)
        | _ => none
      | _ => none
    | _ => none

end

/-- The text that a source holds, with nothing but blanks around it. -/
def read? (s : List Symbol) : Option Raw := do
  let (raw, rest) ← value? (2 * s.length + 2) s
  if (skip rest).isEmpty then some raw else none

mutual

/-- How deep arrays and objects are nested. -/
def depth : Raw → Nat
  | array items => itemsDepth items + 1
  | object members => membersDepth members + 1
  | _ => 0

def itemsDepth : List Raw → Nat
  | [] => 0
  | item :: rest => max (depth item) (itemsDepth rest)

def membersDepth : List (List StringPart × Raw) → Nat
  | [] => 0
  | (_, value) :: rest => max (depth value) (membersDepth rest)

end

end Raw

end PromptChain.Json
