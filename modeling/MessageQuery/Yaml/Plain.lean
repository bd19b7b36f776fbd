import MessageQuery.Text.Hexadecimal
import MessageQuery.Value

/-!
# Plain scalars

What a plain scalar means: null, a boolean, an integer in one of four bases, a number with a
fraction or an exponent, or else its text. Digits after a leading zero are text, and so are
integers that fit no 128-bit word and are no finite binary64 number either.
-/

namespace MessageQuery.Yaml.Plain

open Text

def isNull (text : List Char) : Bool :=
  ["null", "Null", "NULL", "~"].contains (String.ofList text)

def bool? (text : List Char) : Option Bool :=
  let word := String.ofList text
  if ["true", "True", "TRUE"].contains word then some true
  else if ["false", "False", "FALSE"].contains word then some false
  else none

/-! ## Integers -/

/-- A digit of a base up to sixteen. -/
def digitOf? (base : Nat) (c : Char) : Option Nat :=
  (hexValue? c).filter fun d => d < base

def natOfBase? (base : Nat) : List Char → Option Nat
  | [] => none
  | cs => (cs.mapM (digitOf? base)).map (natOfBase base)

/-- The base that a number starts with, and its digits. -/
def splitBase : List Char → Nat × List Char
  | '0' :: 'x' :: rest => (16, rest)
  | '0' :: 'o' :: rest => (8, rest)
  | '0' :: 'b' :: rest => (2, rest)
  | cs => (10, cs)

/-- A zero with digits after it. -/
def hasLeadingZero (digits : List Char) : Bool :=
  match digits with
  | '0' :: rest => !rest.isEmpty && rest.all Char.isDigit
  | _ => false

/-- An integer with an optional sign within 128 bits. -/
def int? (text : List Char) : Option Int := do
  let (negative, unsigned) := splitSign text
  let (base, digits) := splitBase unsigned
  if hasLeadingZero unsigned then none
  else
    let n ← natOfBase? base digits
    if negative then if n ≤ Nat.pow 2 127 then some (-(n : Int)) else none
    else if n < Nat.pow 2 128 then some n else none

/-! ## Floats -/

def named? (text : List Char) : Option Binary64 :=
  match String.ofList text with
  | ".inf" | ".Inf" | ".INF" | "+.inf" | "+.Inf" | "+.INF" => some (.infinite false)
  | "-.inf" | "-.Inf" | "-.INF" => some (.infinite true)
  | ".nan" | ".NaN" | ".NAN" => some .nan
  | _ => none

/-- A sign may stand once; the names of infinity and NaN without a point are text. -/
def float? (text : List Char) : Option Binary64 :=
  match named? text with
  | some x => some x
  | none =>
      if hasLeadingZero (splitSign text).2 then none
      else (Binary64.parse? text).filter Binary64.isFinite

def value (text : List Char) : Value :=
  if text.isEmpty || isNull text then .null
  else
    match bool? text, int? text, float? text with
    | some b, _, _ => .bool b
    | none, some n, _ => .ofInt n
    | none, none, some x => .number (.float x)
    | none, none, none => .string (String.ofList text)

end MessageQuery.Yaml.Plain
