import MessageQuery.Binary64.Basic
import MessageQuery.Text.Digits

/-!
# Reading binary64 numbers

Decimal text is an optional sign, digits with at most one point, and an optional exponent. Its
exact value is rounded once. The names of infinity and NaN are read in any case of letters.
-/

namespace MessageQuery.Binary64

open Text

def decimalLength (n : Nat) : Nat :=
  if n < 10 then 1 else decimalLength (n / 10) + 1
termination_by n

/-- `coefficient * 10 ^ exponent`, rounded. Values far beyond the finite range, or far below the
least magnitude, are decided by the count of digits alone. -/
def ofDecimal (negative : Bool) (coefficient : Nat) (exponent : Int) : Binary64 :=
  let order := decimalLength coefficient + exponent
  if coefficient = 0 || order < -330 then zero negative
  else if 310 < order then .infinite negative
  else if 0 ≤ exponent then ofRatio negative (coefficient * Nat.pow 10 exponent.toNat) 1
  else ofRatio negative coefficient (Nat.pow 10 (-exponent).toNat)

def named? (negative : Bool) (cs : List Char) : Option Binary64 :=
  match String.ofList (cs.map Char.toLower) with
  | "inf" | "infinity" => some (.infinite negative)
  | "nan" => some .nan
  | _ => none

/-- No exponent counts as zero. -/
def exponentOf? : List Char → Option Int
  | [] => some 0
  | mark :: rest => if mark = 'e' || mark = 'E' then intOfDigits? rest else none

/-- The digits after a point, and the rest. -/
def splitFraction : List Char → List Char × List Char
  | '.' :: rest => (rest.takeWhile Char.isDigit, rest.dropWhile Char.isDigit)
  | cs => ([], cs)

def parse? (cs : List Char) : Option Binary64 :=
  let (negative, body) := splitSign cs
  match named? negative body with
  | some x => some x
  | none =>
      let whole := body.takeWhile Char.isDigit
      let (fraction, tail) := splitFraction (body.dropWhile Char.isDigit)
      if whole.isEmpty && fraction.isEmpty then none
      else
        (exponentOf? tail).map fun exponent =>
          ofDecimal negative (natOfDigits (whole ++ fraction)) (exponent - fraction.length)

end MessageQuery.Binary64
