import PromptChain.Json.Basic
import PromptChain.Json.Raw

/-! Reading JSON: what the parts of a text mean. -/
namespace PromptChain.Json

/-- The first unit of a pair that stands for one character. -/
def isHighUnit (n : Nat) : Bool :=
  0xD800 ≤ n && n ≤ 0xDBFF

/-- The second unit of a pair that stands for one character. -/
def isLowUnit (n : Nat) : Bool :=
  0xDC00 ≤ n && n ≤ 0xDFFF

/-- The text of a string. Units that do not form a character, and bytes that belong to none, make it
no text. -/
def decode? : List StringPart → Option Text
  | [] => some []
  | .plain (some c) :: parts => (decode? parts).map (c :: ·)
  | .plain none :: _ => none
  | .escaped c :: parts => (decode? parts).map (c :: ·)
  | .unit high :: .unit low :: parts =>
    if isHighUnit high then
      if isLowUnit low then
        (decode? parts).map (Char.ofNat (0x10000 + (high - 0xD800) * 0x400 + (low - 0xDC00)) :: ·)
      else none
    else if isLowUnit high then none
    else (decode? (.unit low :: parts)).map (Char.ofNat high :: ·)
  | .unit n :: parts =>
    if isHighUnit n || isLowUnit n then none else (decode? parts).map (Char.ofNat n :: ·)

/-- Takes digits into a significand as long as it fits into a word, and counts them. -/
def take : (significand : Nat) → Text → Nat × Nat
  | significand, [] => (significand, 0)
  | significand, d :: ds =>
    let next := significand * 10 + (d.toNat - '0'.toNat)
    if next < Text.wordLimit then
      let (s, count) := take next ds
      (s, count + 1)
    else (significand, 0)

/-- The largest power of ten that a number is multiplied or divided by at once. -/
def largestPower : Nat :=
  308

def power (k : Nat) : Binary64 :=
  (Binary64.ofNat? (Nat.pow 10 k)).getD (Binary64.zero false)

/-- A number divided several times by the largest power, until it is zero. -/
def shrink? : (times : Nat) → Binary64 → Option Binary64
  | 0, x => some x
  | times + 1, x =>
    if x.isZero then some x
    else
      match x.div? (power largestPower) with
      | some y => shrink? times y
      | none => none

/-- A number times a power of ten, rounded after each product or quotient. A result that is too
large is none. -/
def scale? (x : Binary64) (exponent : Int) : Option Binary64 :=
  if exponent < 0 then
    let places := (-exponent).toNat
    -- A number that is not zero yet may need more than one quotient; each of them rounds.
    let times := (places - 1) / largestPower
    match shrink? times x with
    | some y => y.div? (power (places - times * largestPower))
    | none => none
  else if exponent ≤ largestPower then x.mul? (power exponent.toNat)
  else if x.isZero then some x
  else none

def Numeral.writtenExponent (n : Numeral) : Int :=
  match n.exponent with
  | none => 0
  | some (negative, ds) =>
    let e : Int := Text.digitsValue ds
    if negative then -e else e

/-- The meaning of a number. An integer that fits into 64 bits is kept; a negative zero and all else
are binary floating-point numbers. Digits that do not fit into a word are dropped, and each one
dropped before the point counts in the exponent. -/
def Numeral.value? (n : Numeral) : Option JsonNumber :=
  let (whole, kept) := take 0 n.whole
  let dropped := n.whole.length - kept
  -- Integers reach down to -2^63, and up to the largest word.
  let isInteger := n.fraction.isEmpty && n.exponent.isNone && dropped == 0
  if isInteger && !n.negative then some (.integer whole)
  else if isInteger && whole != 0 && whole ≤ Nat.pow 2 63 then some (.integer (-(whole : Int)))
  else do
    let (significand, places) := take whole n.fraction
    let start ← Binary64.ofNat? significand
    let x ← scale? start (n.writtenExponent - places + dropped)
    pure (.float (x.withSign n.negative))

def depthLimit : Nat :=
  127

namespace Raw

mutual

/-- The meaning of a text, if all its numbers and strings have one. -/
def meaning? : Raw → Option Json
  | null => some .null
  | bool b => some (.bool b)
  | number n => n.value?.map .number
  | string parts => (decode? parts).map .string
  | array items => (itemsMeaning? items).map .array
  | object members => (membersMeaning? members).map .object

def itemsMeaning? : List Raw → Option (List Json)
  | [] => some []
  | item :: rest => do
    let json ← meaning? item
    let jsons ← itemsMeaning? rest
    pure (json :: jsons)

def membersMeaning? : List (List StringPart × Raw) → Option (List (Text × Json))
  | [] => some []
  | (name, value) :: rest => do
    let text ← decode? name
    let json ← meaning? value
    let members ← membersMeaning? rest
    pure ((text, json) :: members)

end

end Raw

/-- The value of a text, with the members of objects as they are written. -/
def readWritten? (t : Text) : Option Json := do
  let raw ← Raw.read? (t.map some)
  if raw.depth ≤ depthLimit then raw.meaning? else none

def read? (t : Text) : Option Json :=
  (readWritten? t).map canonical

end PromptChain.Json
