namespace Viewflow

-- The number is ± significand · 2 ^ exponent. The significand stays below 2 ^ 53, and below 2 ^ 52
-- only at the least exponent, so that a nonzero number has one form.
structure Binary64 where
  negative : Bool
  significand : Nat
  exponent : Int
deriving DecidableEq, Repr

namespace Binary64

def fullSignificand : Nat := 0x10000000000000

def leastExponent : Int := -1074

def greatestExponent : Int := 971

def zero (negative : Bool) : Binary64 := ⟨negative, 0, leastExponent⟩

def same (a b : Binary64) : Bool :=
  (a.significand == 0 && b.significand == 0) || a == b

def roundedQuotient (num den : Nat) : Nat :=
  let quotient := num / den
  let twice := 2 * (num % den)
  if twice < den then quotient
  else if den < twice then quotient + 1
  else quotient + quotient % 2

def scaled (num den : Nat) (exponent : Int) : Nat × Nat :=
  if exponent < 0 then (num * Nat.pow 2 (-exponent).toNat, den)
  else (num, den * Nat.pow 2 exponent.toNat)

def exponentFor (num den : Nat) : Int :=
  let guess : Int := (Nat.log2 num : Int) - (Nat.log2 den : Int) - 52
  let fraction := scaled num den guess
  max leastExponent (if fraction.1 < fraction.2 * fullSignificand then guess - 1 else guess)

def ofFraction? (negative : Bool) (num den : Nat) : Option Binary64 :=
  if num = 0 then some (zero negative) else
  let exponent := exponentFor num den
  let fraction := scaled num den exponent
  let rounded := roundedQuotient fraction.1 fraction.2
  let found : Binary64 :=
    if rounded = 2 * fullSignificand then ⟨negative, fullSignificand, exponent + 1⟩
    else ⟨negative, rounded, exponent⟩
  if greatestExponent < found.exponent then none else some found

def times? (a b : Binary64) : Option Binary64 :=
  let product := scaled (a.significand * b.significand) 1 (-(a.exponent + b.exponent))
  ofFraction? (a.negative != b.negative) product.1 product.2

def dividedBy? (a b : Binary64) : Option Binary64 :=
  let quotient := scaled a.significand b.significand (b.exponent - a.exponent)
  if b.significand = 0 then none
  else ofFraction? (a.negative != b.negative) quotient.1 quotient.2

def greatestPlaces : Nat := 308

def powerOfTen? (places : Nat) : Option Binary64 := ofFraction? false (Nat.pow 10 places) 1

-- Multiplied by 10 ^ places; only zero is multiplied by a power that is no number itself.
def raised? (x : Binary64) (places : Nat) : Option Binary64 :=
  if x.significand = 0 then some x
  else if greatestPlaces < places then none
  else do x.times? (← powerOfTen? places)

-- Divided by 10 ^ places, after that many divisions by the greatest power; zero stays zero.
def lowered? (x : Binary64) (places : Nat) : Nat → Option Binary64
  | 0 => do x.dividedBy? (← powerOfTen? places)
  | steps + 1 =>
    if x.significand = 0 then some x
    else do lowered? (← x.dividedBy? (← powerOfTen? greatestPlaces)) places steps

-- digits · 10 ^ exponent in rounded steps: the digits, the powers of ten, and each product or
-- quotient are numbers themselves. The result may lie a few places beside the nearest number.
def ofDecimal? (negative : Bool) (digits : Nat) (exponent : Int) : Option Binary64 := do
  let x ← ofFraction? negative digits 1
  if 0 ≤ exponent then x.raised? exponent.toNat
  else
    let places := (-exponent).toNat
    let steps := (places - 1) / greatestPlaces
    x.lowered? (places - steps * greatestPlaces) steps

end Binary64
end Viewflow
