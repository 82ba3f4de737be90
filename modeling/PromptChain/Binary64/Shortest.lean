import PromptChain.Binary64.Basic

/-! The shortest decimals that round to a number. -/
namespace PromptChain

structure Decimal where
  digits : Nat
  exponent : Int
deriving DecidableEq, Repr

namespace Decimal

def tenPow (k : Int) : Nat × Nat :=
  if 0 ≤ k then (Nat.pow 10 k.toNat, 1) else (1, Nat.pow 10 (-k).toNat)

/-- The exponent of the leading digit of the fraction `num / den`, which is not zero. -/
def leadingExponent (num den : Nat) : Int :=
  if den ≤ num then
    ((Nat.toDigits 10 (num / den)).length : Int) - 1
  else
    match (List.range 400).find? fun k => den ≤ num * Nat.pow 10 k with
    | some k => -(k : Int)
    | none => 0

/-- Moves the zeros at the end of the digits into the exponent; `fuel` bounds their number. -/
def dropZeros : (fuel : Nat) → Decimal → Decimal
  | 0, d => d
  | fuel + 1, d =>
    if d.digits ≠ 0 ∧ d.digits % 10 = 0 then dropZeros fuel ⟨d.digits / 10, d.exponent + 1⟩ else d

end Decimal

namespace Binary64

/-- The values that round to a number, in quarters of a unit. The ends round to it if its
significand is even; below a power of two the numbers lie twice as close. -/
structure Interval where
  low : Nat
  high : Nat
  closed : Bool

def interval (x : Binary64) : Interval where
  low :=
    4 * x.magnitude -
      (if x.significand = halfLimit ∧ x.power ≠ 0 then 1 else 2) * Nat.pow 2 x.power
  high := 4 * x.magnitude + 2 * Nat.pow 2 x.power
  closed := x.significand % 2 = 0

def Interval.holds (i : Interval) (num den : Nat) : Bool :=
  if i.closed then i.low * den ≤ num && num ≤ i.high * den
  else i.low * den < num && num < i.high * den

/-- The multiple of a power of ten that rounds to a number. Of two neighbours the nearer one is
taken, and of two that are equally near the even one. -/
def onGrid? (x : Binary64) (exponent : Int) : Option Decimal :=
  let (ten, den) := Decimal.tenPow exponent
  -- `step` and `value` count quarters of a unit, `den` times over.
  let step := ten * (4 * one)
  let value := 4 * x.magnitude * den
  let below := value / step
  let holds (d : Nat) := x.interval.holds (d * step) den
  let twice := 2 * (value % step)
  let preferBelow := twice < step || (twice == step && below % 2 == 0)
  let (first, second) := if preferBelow then (below, below + 1) else (below + 1, below)
  if holds first then some ⟨first, exponent⟩
  else if holds second then some ⟨second, exponent⟩
  else none

/-- The decimal with the fewest digits that rounds to a number, and of those the nearest one.
Seventeen digits always suffice. -/
def shortest (x : Binary64) : Decimal :=
  if x.isZero then ⟨0, 0⟩
  else
    let top := Decimal.leadingExponent x.magnitude one
    match (List.range 17).findSome? fun (n : Nat) => x.onGrid? (top - n) with
    | some d => d.dropZeros 20
    | none => ⟨0, 0⟩

end Binary64

end PromptChain
