import Viewflow.Number.Shortest

namespace Viewflow.Json

inductive Number where
  | integer (value : Int)
  | floating (value : Binary64)
deriving DecidableEq

namespace Number

def same : Number → Number → Bool
  | .integer a, .integer b => a == b
  | .floating a, .floating b => a.same b
  | _, _ => false

def digitChars (n : Nat) : List Char := Nat.toDigits 10 n

-- Positional from 10 ^ -5 up to below 10 ^ 16, with at least one place behind the point; else one
-- digit before the point and an exponent with its sign.
def magnitudeChars (x : Binary64) : List Char :=
  if x.significand = 0 then ['0', '.', '0'] else
  let d := x.shortest
  let digits := digitChars d.digits
  let places : Int := (digits.length : Int) + d.exponent
  if -5 < places ∧ places ≤ 16 then
    if places ≤ 0 then '0' :: '.' :: (List.replicate (-places).toNat '0' ++ digits)
    else if (digits.length : Int) ≤ places then
      digits ++ List.replicate (places - digits.length).toNat '0' ++ ['.', '0']
    else digits.take places.toNat ++ '.' :: digits.drop places.toNat
  else
    let exponent := places - 1
    let sign := if exponent < 0 then '-' else '+'
    let fraction := if digits.length = 1 then [] else '.' :: digits.drop 1
    digits.take 1 ++ fraction ++ 'e' :: sign :: digitChars exponent.natAbs

def chars : Number → List Char
  | .integer value =>
    if value < 0 then '-' :: digitChars value.natAbs else digitChars value.natAbs
  | .floating x => if x.negative then '-' :: magnitudeChars x else magnitudeChars x

def text (n : Number) : String := String.ofList n.chars

structure Literal where
  negative : Bool
  whole : List Char
  fraction : Option (List Char)
  exponent : Option (Bool × List Char)
deriving DecidableEq

def digitsOf (cs : List Char) : List Char × List Char :=
  (cs.takeWhile Char.isDigit, cs.dropWhile Char.isDigit)

def readExponent? : List Char → Option (Option (Bool × List Char))
  | [] => some none
  | mark :: rest =>
    if mark = 'e' ∨ mark = 'E' then
      let signed := match rest with
        | '+' :: digits => (false, digits)
        | '-' :: digits => (true, digits)
        | digits => (false, digits)
      if signed.2 ≠ [] ∧ signed.2.all Char.isDigit then some (some signed) else none
    else none

def literal? (cs : List Char) : Option Literal :=
  let negative := cs.head? = some '-'
  let unsigned := if negative then cs.drop 1 else cs
  let whole := digitsOf unsigned
  if whole.1 = [] ∨ (whole.1.head? = some '0' ∧ whole.1.length ≠ 1) then none else
  match whole.2 with
  | '.' :: rest =>
    let fraction := digitsOf rest
    if fraction.1 = [] then none
    else (readExponent? fraction.2).map fun e => ⟨negative, whole.1, some fraction.1, e⟩
  | rest => (readExponent? rest).map fun e => ⟨negative, whole.1, none, e⟩

def digitValue (c : Char) : Nat := c.toNat - '0'.toNat

def valueOf (digits : List Char) : Nat := digits.foldl (fun n c => 10 * n + digitValue c) 0

-- Integers without a sign stay below the first bound; negative ones reach down to minus the second.
def unsignedBound : Nat := 0x10000000000000000

def signedBound : Nat := 0x8000000000000000

-- Digits are appended to a significand while 64 bits hold it. From the first that does not fit on
-- they are dropped. Beside the significand stands how many were taken.
def taken (significand : Nat) : List Char → Nat × Nat
  | [] => (significand, 0)
  | c :: rest =>
    let next := 10 * significand + digitValue c
    if next < unsignedBound then
      let t := taken next rest
      (t.1, t.2 + 1)
    else (significand, 0)

def Literal.shift (l : Literal) : Int :=
  match l.exponent with
  | none => 0
  | some (down, digits) => if down then -(valueOf digits : Int) else (valueOf digits : Int)

-- Whole numbers stay integers while 64 bits hold them; minus zero is a floating-point number.
-- Digits dropped before the point count as places, those behind it as nothing.
def ofLiteral? (l : Literal) : Option Number :=
  let whole := taken 0 l.whole
  let dropped := l.whole.length - whole.2
  let part := taken whole.1 (l.fraction.getD [])
  let fits := !l.negative || (whole.1 != 0 && whole.1 ≤ signedBound)
  if l.fraction = none ∧ l.exponent = none ∧ dropped = 0 ∧ fits then
    some (.integer (if l.negative then -(whole.1 : Int) else whole.1))
  else
    (Binary64.ofDecimal? l.negative part.1 (l.shift + dropped - part.2)).map Number.floating

end Number
end Viewflow.Json
