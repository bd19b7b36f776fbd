import MessageQuery.Binary64.Decimal

/-!
# Shortest decimals

The shortest decimal of a finite number is the one with the fewest significant digits that reads
back as the number, and of those the nearest. For each count of digits only the two neighbours of
the exact value on that decimal grid are tried. A layout then says how the digits are written.
-/

namespace MessageQuery.Binary64

open Text

/-- Which neighbour is taken when the exact value lies halfway between two shortest decimals. -/
inductive HalfRule where
  | even
  | up
deriving DecidableEq

/-- The value `coefficient * 10 ^ exponent`. -/
structure Decimal where
  coefficient : Nat
  exponent : Int
deriving DecidableEq

/-- The magnitude `num / den` divided by `10 ^ exponent`, as numerator and denominator. -/
def gridRatio (num den : Nat) (exponent : Int) : Nat × Nat :=
  if 0 ≤ exponent then (num, den * Nat.pow 10 exponent.toNat)
  else (num * Nat.pow 10 (-exponent).toNat, den)

/-- The decimal neighbour of the magnitude on the grid of `10 ^ exponent` that is nearest among
those that read back as `x`. -/
def gridHit? (x : Binary64) (rule : HalfRule) (num den : Nat) (exponent : Int) : Option Decimal :=
  let (top, bottom) := gridRatio num den exponent
  let below := top / bottom
  let lowHits := ofDecimal false below exponent = x
  let highHits := ofDecimal false (below + 1) exponent = x
  let twice := 2 * (top % bottom)
  let takeLow := decide (twice < bottom) ||
    (twice == bottom && rule == .even && below % 2 == 0)
  if lowHits && (takeLow || !highHits) then some ⟨below, exponent⟩
  else if highHits then some ⟨below + 1, exponent⟩
  else none

/-- Tries `count`, `count + 1`, … digits; `order` is the place of the first digit. -/
def searchDigits (x : Binary64) (rule : HalfRule) (num den : Nat) (order : Int) :
    Nat → Nat → Option Decimal
  | 0, _ => none
  | fuel + 1, count =>
      match gridHit? x rule num den (order - count) with
      | some hit => some hit
      | none => searchDigits x rule num den order fuel (count + 1)

/-- How many times a ratio below one is multiplied by ten to reach one. -/
def leadingPlaces (num den : Nat) : Nat → Nat
  | 0 => 0
  | fuel + 1 => if den ≤ num then 0 else leadingPlaces (10 * num) den fuel + 1

/-- The least power of ten that exceeds the magnitude; zero counts as one digit. -/
def decimalOrder (num den : Nat) : Int :=
  if num = 0 ∨ den ≤ num then decimalLength (num / den)
  else 1 - (leadingPlaces num den 400 : Int)

def dropTrailingZeros (coefficient : Nat) (exponent : Int) : Decimal :=
  if coefficient ≠ 0 ∧ coefficient % 10 = 0 then
    dropTrailingZeros (coefficient / 10) (exponent + 1)
  else ⟨coefficient, exponent⟩
termination_by coefficient

/-- All digits of a magnitude: halving is multiplying by five and shifting the point. -/
def exactDecimal (exponent fraction : Nat) : Decimal :=
  let m := mantissa exponent fraction
  let s := scale exponent
  if 0 ≤ s then ⟨m * Nat.pow 2 s.toNat, 0⟩ else ⟨m * Nat.pow 5 (-s).toNat, s⟩

/-- Seventeen digits suffice; beyond them only the exact decimal would be left. -/
def shortest (rule : HalfRule) (exponent : Fin 2047) (fraction : Fin fractionRange) : Decimal :=
  let (num, den) := ratio exponent fraction
  let x := Binary64.finite false exponent fraction
  let found := (searchDigits x rule num den (decimalOrder num den) 17 1).getD
    (exactDecimal exponent fraction)
  dropTrailingZeros found.coefficient found.exponent

/-- How a finite number is written from its shortest digits. -/
structure Layout where
  halfRule : HalfRule
  /-- Whether a number whose first digit stands for `10 ^ place` is written with an exponent. -/
  scientific : Int → Bool
  /-- What follows a number written without fraction and exponent. -/
  wholeEnding : List Char

/-- Digits with a decimal point after the first `place + 1` of them. -/
def positional (layout : Layout) (digits : List Char) (place : Int) : List Char :=
  if place < 0 then
    '0' :: '.' :: (List.replicate (-place - 1).toNat '0' ++ digits)
  else
    let before := place.toNat + 1
    if before < digits.length then digits.take before ++ '.' :: digits.drop before
    else digits ++ List.replicate (before - digits.length) '0' ++ layout.wholeEnding

/-- The first digit, the others after a point, and a signed exponent. -/
def scientific (digits : List Char) (place : Int) : List Char :=
  let mantissa := match digits with
    | first :: second :: rest => first :: '.' :: second :: rest
    | short => short
  mantissa ++ 'e' :: (if place < 0 then '-' else '+') :: digitsOfNat place.natAbs

def writeFinite (layout : Layout) (negative : Bool) (exponent : Fin 2047)
    (fraction : Fin fractionRange) : List Char :=
  let decimal := shortest layout.halfRule exponent fraction
  let digits := digitsOfNat decimal.coefficient
  let place := decimal.exponent + digits.length - 1
  let body :=
    if layout.scientific place then scientific digits place else positional layout digits place
  if negative then '-' :: body else body

/-- In JSON text the places from -5 to 15 are written out, and a whole number keeps `.0`. -/
def jsonLayout : Layout :=
  ⟨.even, fun place => place < -5 || 15 < place, ['.', '0']⟩

/-- Plain decimals have no exponent and no zero fraction. -/
def plainLayout : Layout :=
  ⟨.up, fun _ => false, []⟩

/-- JSON has no text for NaN and the infinities, which are written as null. -/
def toJson : Binary64 → List Char
  | .finite negative exponent fraction => writeFinite jsonLayout negative exponent fraction
  | _ => "null".toList

def toPlain : Binary64 → List Char
  | .nan => "NaN".toList
  | .infinite negative => if negative then "-inf".toList else "inf".toList
  | .finite negative exponent fraction => writeFinite plainLayout negative exponent fraction

end MessageQuery.Binary64
