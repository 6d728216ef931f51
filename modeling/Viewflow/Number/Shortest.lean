import Viewflow.Number.Binary64

namespace Viewflow.Binary64

-- The reals that round to a number, in units of a quarter of its last place: from low to high, ends
-- included when the significand is even.
structure Interval where
  low : Nat
  value : Nat
  high : Nat
  closed : Bool
  unit : Int
deriving Repr

def interval (x : Binary64) : Interval where
  low := if x.significand = fullSignificand ∧ leastExponent < x.exponent then 4 * x.significand - 1
    else 4 * x.significand - 2
  value := 4 * x.significand
  high := 4 * x.significand + 2
  closed := x.significand % 2 = 0
  unit := x.exponent - 2

def Interval.holds (i : Interval) (scale a : Nat) : Bool :=
  if i.closed then i.low * scale ≤ a && a ≤ i.high * scale
  else i.low * scale < a && a < i.high * scale

structure Decimal where
  digits : Nat
  exponent : Int
deriving DecidableEq, Repr

-- The two neighbours of the value on the grid of 10 ^ place: the one inside the interval, the
-- nearer of two, the even one of two equally near.
def onGrid? (i : Interval) (place : Int) : Option Decimal :=
  -- value · up / down is the value in units of the grid
  let up := Nat.pow 2 i.unit.toNat * Nat.pow 10 (-place).toNat
  let down := Nat.pow 2 (-i.unit).toNat * Nat.pow 10 place.toNat
  let below := i.value * up / down
  let rest := i.value * up % down
  let above := below + 1
  let fits := fun n => i.holds up (n * down)
  let pick :=
    if fits below && fits above then
      if 2 * rest < down then some below
      else if down < 2 * rest then some above
      else some (below + below % 2)
    else if fits below then some below
    else if fits above then some above
    else none
  pick.map fun n => ⟨n, place⟩

def magnitude (x : Binary64) : Int :=
  let num := x.significand * Nat.pow 2 x.exponent.toNat
  let den := Nat.pow 2 (-x.exponent).toNat
  if den ≤ num then ((Nat.toDigits 10 (num / den)).length : Int)
  else
    -- 10 ^ k · num / den has its first digit before the point for the least such k
    1 - ((Nat.toDigits 10 ((den - 1) / num)).length : Int)

def firstOnGrid? (i : Interval) (magnitude : Int) : Nat → Nat → Option Decimal
  | 0, _ => none
  | fuel + 1, count =>
    match onGrid? i (magnitude - (count : Int)) with
    | some found => some found
    | none => firstOnGrid? i magnitude fuel (count + 1)

def Decimal.reduced : Nat → Decimal → Decimal
  | 0, d => d
  | fuel + 1, d =>
    if d.digits ≠ 0 ∧ d.digits % 10 = 0 then reduced fuel ⟨d.digits / 10, d.exponent + 1⟩ else d

def shortest (x : Binary64) : Decimal :=
  ((firstOnGrid? x.interval x.magnitude 18 1).getD ⟨0, 0⟩).reduced 20

end Viewflow.Binary64
