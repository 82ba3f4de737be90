import PromptChain.Binary64.Shortest
import PromptChain.Json.Basic

/-! Writing JSON, on one line or over many. -/
namespace PromptChain.Json

def hexDigit (n : Nat) : Char :=
  Nat.digitChar (n % 16)

def escape (c : Char) : Text :=
  if c = '"' then ['\\', '"']
  else if c = '\\' then ['\\', '\\']
  else if c = '\x08' then ['\\', 'b']
  else if c = '\x0c' then ['\\', 'f']
  else if c = '\n' then ['\\', 'n']
  else if c = '\r' then ['\\', 'r']
  else if c = '\t' then ['\\', 't']
  else if c.toNat < 0x20 then ['\\', 'u', '0', '0', hexDigit (c.toNat / 16), hexDigit c.toNat]
  else [c]

def quote (t : Text) : Text :=
  '"' :: t.flatMap escape ++ ['"']

/-- The exponents of the leading digit at which a number is written without an exponent. -/
structure Positional where
  least : Int
  greatest : Int

/-- Numbers from 0.00001 to below 10^16 are written without an exponent. -/
def positional : Positional :=
  ⟨-5, 15⟩

/-- A decimal without an exponent, always with a fraction; `top` is the place of its first digit. -/
def plainDigits (digits : Text) (top : Int) : Text :=
  if top < 0 then
    "0.".toList ++ List.replicate (-top - 1).toNat '0' ++ digits
  else
    let places := top.toNat + 1
    let fraction := digits.drop places
    digits.take places ++ List.replicate (places - digits.length) '0' ++
      '.' :: (if fraction.isEmpty then ['0'] else fraction)

/-- A decimal with one digit before the point and a signed exponent. -/
def scientificDigits (digits : Text) (top : Int) : Text :=
  let mantissa := match digits with
    | d :: e :: ds => d :: '.' :: e :: ds
    | ds => ds
  let sign := if top < 0 then '-' else '+'
  mantissa ++ 'e' :: sign :: Text.ofNat top.natAbs

/-- A binary floating-point number, in the fewest digits that read back as it. -/
def writeFloat (x : Binary64) : Text :=
  let d := x.shortest
  let digits := Text.ofNat d.digits
  let top := d.exponent + digits.length - 1
  let magnitude :=
    if positional.least ≤ top ∧ top ≤ positional.greatest then plainDigits digits top
    else scientificDigits digits top
  if x.negative then '-' :: magnitude else magnitude

def writeNumber : JsonNumber → Text
  | .integer n => Text.ofInt n
  | .float x => writeFloat x

def writeBool (b : Bool) : Text :=
  if b then "true".toList else "false".toList

mutual

/-- A value on one line. -/
def compact : Json → Text
  | null => "null".toList
  | bool b => writeBool b
  | number n => writeNumber n
  | string s => quote s
  | array items => '[' :: compactItems items ++ [']']
  | object members => '{' :: compactMembers members ++ ['}']

def compactItems : List Json → Text
  | [] => []
  | [item] => compact item
  | item :: rest => compact item ++ ',' :: compactItems rest

def compactMembers : List (Text × Json) → Text
  | [] => []
  | [(name, value)] => quote name ++ ':' :: compact value
  | (name, value) :: rest => quote name ++ ':' :: compact value ++ ',' :: compactMembers rest

end

def newline (depth : Nat) : Text :=
  '\n' :: List.replicate (2 * depth) ' '

mutual

/-- A value over several lines, two spaces deeper at each level. -/
def prettyAt (depth : Nat) : Json → Text
  | array [] => ['[', ']']
  | array items => '[' :: prettyItems (depth + 1) items ++ newline depth ++ [']']
  | object [] => ['{', '}']
  | object members => '{' :: prettyMembers (depth + 1) members ++ newline depth ++ ['}']
  | json => compact json

def prettyItems (depth : Nat) : List Json → Text
  | [] => []
  | [item] => newline depth ++ prettyAt depth item
  | item :: rest => newline depth ++ prettyAt depth item ++ ',' :: prettyItems depth rest

def prettyMembers (depth : Nat) : List (Text × Json) → Text
  | [] => []
  | [(name, value)] => newline depth ++ quote name ++ ':' :: ' ' :: prettyAt depth value
  | (name, value) :: rest =>
    newline depth ++ quote name ++ ':' :: ' ' :: prettyAt depth value ++
      ',' :: prettyMembers depth rest

end

def pretty (json : Json) : Text :=
  prettyAt 0 json

end PromptChain.Json
