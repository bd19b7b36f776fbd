import MessageQuery.Binary64.Shortest
import MessageQuery.Text.Blank

/-!
# Message numbers

A number is an unsigned or signed word, a binary64 number or a big integer. Integers are exact,
and equality compares integers of any form by their value.
-/

namespace MessageQuery

inductive Number where
  | uint (n : UInt64)
  | int (n : Int64)
  | float (x : Binary64)
  | big (n : Int)
deriving DecidableEq

namespace Number

open Text

/-- The normal form of an integer: an unsigned word if it fits, else a signed word, else big. -/
def ofInt (n : Int) : Number :=
  if 0 ≤ n then
    if n < 0x10000000000000000 then .uint (UInt64.ofNat n.toNat) else .big n
  else if -0x8000000000000000 ≤ n then .int (Int64.ofInt n) else .big n

def ofUInt64 (n : UInt64) : Number :=
  .uint n

def ofInt64 (n : Int64) : Number :=
  if 0 ≤ n then .uint n.toUInt64 else .int n

/-- An unsigned word of any width. -/
def ofNat (n : Nat) : Number :=
  if n < 0x10000000000000000 then .uint (UInt64.ofNat n) else .big n

theorem ofNat_eq_ofInt (n : Nat) : ofNat n = ofInt n := by
  unfold ofNat ofInt
  rw [if_pos (Int.natCast_nonneg n), Int.toNat_natCast]
  by_cases small : n < 0x10000000000000000
  · rw [if_pos small, if_pos (by omega)]
  · rw [if_neg small, if_neg (by omega)]

theorem ofUInt64_eq_ofInt (n : UInt64) : ofUInt64 n = ofInt n.toNat := by
  rw [← ofNat_eq_ofInt, ofNat, if_pos n.toNat_lt, UInt64.ofNat_toNat]
  rfl

theorem ofInt64_eq_ofInt (n : Int64) : ofInt64 n = ofInt n.toInt := by
  have bound : n.toInt < 0x8000000000000000 := n.toInt_lt
  have low : -0x8000000000000000 ≤ n.toInt := n.le_toInt
  unfold ofInt64
  split
  · next nonneg =>
      have nonneg' : 0 ≤ n.toInt := Int64.le_iff_toInt_le.1 nonneg
      unfold ofInt
      rw [if_pos nonneg', if_pos (by omega)]
      have word : n.toInt = n.toBitVec.toInt := rfl
      have value := BitVec.toInt_eq_toNat_cond n.toBitVec
      have same : n.toInt.toNat = n.toBitVec.toNat := by
        rw [word, value] at nonneg' ⊢
        have small := n.toBitVec.isLt
        split at nonneg' <;> omega
      rw [same]
      exact congrArg Number.uint UInt64.ofNat_toNat.symm
  · next negative =>
      have negative' : ¬0 ≤ n.toInt := fun h => negative (Int64.le_iff_toInt_le.2 h)
      unfold ofInt
      rw [if_neg negative', if_pos low, Int64.ofInt_toInt]

/-- The integer that a number is, if it is one. -/
def toInt? : Number → Option Int
  | .uint n => some n.toNat
  | .int n => some n.toInt
  | .big n => some n
  | .float x => x.toInt?

def isInteger (n : Number) : Bool :=
  n.toInt?.isSome

/-- A fraction never equals an integer; two numbers that are not integers are equal as binary64
numbers. -/
def equal (first second : Number) : Bool :=
  match first.toInt?, second.toInt? with
  | some a, some b => a == b
  | _, _ =>
      match first, second with
      | .float x, .float y => x.equal y
      | _, _ => false

instance : BEq Number := ⟨equal⟩

def asUnsigned? (n : Number) : Option Nat :=
  n.toInt?.bind fun value =>
    if 0 ≤ value ∧ value < 0x10000000000000000 then some value.toNat else none

/-- An integer as an array offset, held within the signed 64-bit range. -/
def asOffset? (n : Number) : Option Int :=
  n.toInt?.map fun value => max (-0x8000000000000000) (min value 0x7FFFFFFFFFFFFFFF)

/-- A binary64 number close to the number: the nearest one to a word, and the one that the leading
bits of a big integer give; none for NaN and the infinities. -/
def asBinary64? : Number → Option Binary64
  | .uint n => some (.ofInt n.toNat)
  | .int n => some (.ofInt n.toInt)
  | .big n => some (.ofWideInt n)
  | .float x => if x.isFinite then some x else none

def toDecimal : Number → List Char
  | .uint n => digitsOfInt n.toNat
  | .int n => digitsOfInt n.toInt
  | .big n => digitsOfInt n
  | .float x => x.toPlain

def toJson : Number → List Char
  | .uint n => digitsOfInt n.toNat
  | .int n => digitsOfInt n.toInt
  | .big n => digitsOfInt n
  | .float x => x.toJson

/-- Reads an integer of any size exactly, and other text as a finite binary64 number. Blanks
around the number are passed over. -/
def parse? (text : List Char) : Option Number :=
  let trimmed := trim text
  match intOfDigits? trimmed with
  | some n => some (ofInt n)
  | none =>
      match Binary64.parse? trimmed with
      | some x => if x.isFinite then some (.float x) else none
      | none => none

theorem toInt?_ofInt (n : Int) : (ofInt n).toInt? = some n := by
  unfold ofInt
  split
  · split
    · next nonneg small =>
        have bound : n.toNat < 0x10000000000000000 := by omega
        simp only [toInt?, UInt64.toNat_ofNat_of_lt' bound]
        congr 1
        omega
    · rfl
  · split
    · next negative bounded =>
        simp only [toInt?]
        rw [Int64.toInt_ofInt_of_le] <;> omega
    · rfl

end Number

end MessageQuery
