/-!
# Binary64 numbers

A binary64 number is NaN, an infinity, or a finite number given by its sign, exponent field and
fraction field. Its magnitude is an exact ratio of naturals; rounding takes the nearest number
and a half to the even neighbour.
-/

namespace MessageQuery

/-- Two to the power 52: a fraction field has 52 bits. -/
abbrev Binary64.fractionRange : Nat :=
  0x10000000000000

inductive Binary64 where
  | nan
  | infinite (negative : Bool)
  | finite (negative : Bool) (exponent : Fin 2047) (fraction : Fin Binary64.fractionRange)
deriving DecidableEq

namespace Binary64

/-- The mantissa has the hidden bit unless the exponent field is zero. -/
def mantissa (exponent fraction : Nat) : Nat :=
  if exponent = 0 then fraction else fractionRange + fraction

/-- The power of two that scales the mantissa. -/
def scale (exponent : Nat) : Int :=
  (max exponent 1 : Nat) - 1075

/-- The magnitude as numerator and denominator. -/
def ratio (exponent fraction : Nat) : Nat × Nat :=
  let m := mantissa exponent fraction
  let s := scale exponent
  if 0 ≤ s then (m * Nat.pow 2 s.toNat, 1) else (m, Nat.pow 2 (-s).toNat)

/-- Exponent and fraction read as one word count the magnitudes upwards. -/
def ofMagnitudeCode (negative : Bool) (code : Nat) : Binary64 :=
  if finite : code < 2047 * fractionRange then
    .finite negative ⟨code / fractionRange, Nat.div_lt_of_lt_mul (Nat.mul_comm _ _ ▸ finite)⟩
      ⟨code % fractionRange, Nat.mod_lt _ (by decide)⟩
  else .infinite negative

def zero (negative : Bool) : Binary64 :=
  .finite negative 0 0

/-- The natural number nearest to `num / den`, a half going to the even neighbour. -/
def nearestQuotient (num den : Nat) : Nat :=
  let quotient := num / den
  let twice := 2 * (num % den)
  if twice < den then quotient
  else if den < twice then quotient + 1
  else quotient + quotient % 2

/-- `num / den` divided by `2 ^ s`, as numerator and denominator. -/
def scaledRatio (num den : Nat) (s : Int) : Nat × Nat :=
  if 0 ≤ s then (num, den * Nat.pow 2 s.toNat) else (num * Nat.pow 2 (-s).toNat, den)

/-- The scale that leaves a mantissa of 53 bits, or the least scale there is. -/
def scaleOfRatio (num den : Nat) : Int :=
  let guess : Int := (Nat.log2 num : Int) - Nat.log2 den - 53
  let (top, bottom) := scaledRatio num den guess
  max (if top / bottom < 2 * fractionRange then guess else guess + 1) (-1074)

/-- The binary64 number nearest to `num / den`. -/
def ofRatio (negative : Bool) (num den : Nat) : Binary64 :=
  if num = 0 then zero negative
  else
    let s := scaleOfRatio num den
    let (top, bottom) := scaledRatio num den s
    ofMagnitudeCode negative ((s + 1074).toNat * fractionRange + nearestQuotient top bottom)

def ofInt (n : Int) : Binary64 :=
  ofRatio (decide (n < 0)) n.natAbs 1

/-- Whether one of the lowest 64-bit words of a number, `words` of them, has a bit set among its
`width` lowest bits. -/
def hasLowBits (width words n : Nat) : Bool :=
  (List.range words).any fun i => n / Nat.pow 2 (64 * i) % Nat.pow 2 width != 0

/-- The leading 64 bits of a number that has more, and the count of the others. The others are not
kept, but the last leading bit is set if one of them is found set. In each word below the top one
only as many low bits are looked at as the top word has. -/
def leadingWord (n : Nat) : Nat × Nat :=
  let excess := Nat.log2 n - 63
  let word := n / Nat.pow 2 excess
  let lost := hasLowBits (Nat.log2 n % 64 + 1) (Nat.log2 n / 64) n
  (if lost && word % 2 == 0 then word + 1 else word, excess)

/-- A binary64 number close to a whole number of any size, which is rounded from its leading 64
bits. -/
def ofWideInt (n : Int) : Binary64 :=
  if n.natAbs < 0x10000000000000000 then ofInt n
  else
    let (word, excess) := leadingWord n.natAbs
    ofRatio (decide (n < 0)) (word * Nat.pow 2 excess) 1

def isFinite : Binary64 → Bool
  | .finite .. => true
  | _ => false

def applySign (negative : Bool) (n : Nat) : Int :=
  if negative then -(n : Int) else n

/-- The whole number that a finite number is, if it is one. -/
def toInt? : Binary64 → Option Int
  | .finite negative exponent fraction =>
      let (num, den) := ratio exponent fraction
      if num % den = 0 then some (applySign negative (num / den)) else none
  | _ => none

/-- Numeric equality: NaN differs from itself and the two zeros agree. -/
def equal : Binary64 → Binary64 → Bool
  | .infinite first, .infinite second => first == second
  | .finite sign₁ exponent₁ fraction₁, .finite sign₂ exponent₂ fraction₂ =>
      exponent₁ == exponent₂ && fraction₁ == fraction₂ &&
        (sign₁ == sign₂ || (exponent₁ == 0 && fraction₁ == 0))
  | _, _ => false

def signBit (negative : Bool) : Nat :=
  if negative then 0x8000000000000000 else 0

/-- The interchange word: sign, exponent and fraction from the top bit down. -/
def word : Binary64 → Nat
  | .nan => 0x7FF8000000000000
  | .infinite negative => signBit negative + 0x7FF0000000000000
  | .finite negative exponent fraction =>
      signBit negative + exponent * fractionRange + fraction

end Binary64

end MessageQuery
