/-! Finite binary floating-point numbers of 64 bits, as exact multiples of the least one. -/
namespace PromptChain

/-- A finite number `±significand * 2^power` in units of `2^-1074`, the least positive number. -/
structure Binary64 where
  negative : Bool
  significand : Nat
  power : Nat
deriving DecidableEq, Repr

namespace Binary64

/-- How many units make one. -/
def one : Nat :=
  Nat.pow 2 1074

def magnitude (x : Binary64) : Nat :=
  x.significand * Nat.pow 2 x.power

/-- Significands have at most 53 bits. -/
def limit : Nat :=
  9007199254740992

def halfLimit : Nat :=
  4503599627370496

/-- Zero, which has a sign. -/
def zero (negative : Bool) : Binary64 :=
  ⟨negative, 0, 0⟩

def isZero (x : Binary64) : Bool :=
  x.significand == 0

/-- The integer nearest to a quotient, the even one of two. -/
def roundEven (num den : Nat) : Nat :=
  let floor := num / den
  let twice := 2 * (num % den)
  if twice < den ∨ (twice = den ∧ floor % 2 = 0) then floor else floor + 1

/-- The power of two that leaves a quotient with at most 53 bits. -/
def powerFor (quotient : Nat) : Nat :=
  if quotient < limit then 0 else quotient.log2 - 52

/-- The number nearest to `num / den` units, the one with the even significand of two. A magnitude
from the next power of two after the largest number on is none. -/
def round? (negative : Bool) (num den : Nat) : Option Binary64 :=
  let power := powerFor (num / den)
  let significand := roundEven num (den * Nat.pow 2 power)
  -- Rounding up may carry into a bit too many.
  let x : Binary64 :=
    if significand = limit then ⟨negative, halfLimit, power + 1⟩ else ⟨negative, significand, power⟩
  if x.power ≤ 2045 then some x else none

def ofNat? (n : Nat) : Option Binary64 :=
  round? false (n * one) 1

def ofInt? (n : Int) : Option Binary64 :=
  round? (n < 0) (n.natAbs * one) 1

def mul? (x y : Binary64) : Option Binary64 :=
  round? (x.negative != y.negative) (x.magnitude * y.magnitude) one

def div? (x y : Binary64) : Option Binary64 :=
  round? (x.negative != y.negative) (x.magnitude * one) y.magnitude

def withSign (negative : Bool) (x : Binary64) : Binary64 :=
  { x with negative }

/-- The integer that a number is, if it is one of magnitude below 2^63. -/
def toInt? (x : Binary64) : Option Int :=
  if x.magnitude % one = 0 ∧ x.magnitude < Nat.pow 2 63 * one then
    let n : Int := (x.magnitude / one : Nat)
    some (if x.negative then -n else n)
  else
    none

end Binary64

end PromptChain
