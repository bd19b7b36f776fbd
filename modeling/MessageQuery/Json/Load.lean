import MessageQuery.Document.Shape
import MessageQuery.Json.Value

/-!
# Loading shaped JSON documents

A loader reads the datum of a shape. A record may be written as an object, or as an array of its
fields in declared order; fields with a default may be left out.
-/

namespace MessageQuery.Json.Reader

open Document

/-! ## Passing over unknown members -/

/-- A number that is cut short is malformed here. -/
def skippedNumeral : Reader Unit := fun cs =>
  match numeral cs with
  | .ok (_, rest) => .ok ((), rest)
  | .error _ => .error .malformed

/-- A value that is passed over; it may nest to any depth. -/
def skippedValue : Nat → Reader Unit
  | 0 => throw .malformed
  | fuel + 1 => do
      match ← token with
      | 'n' => drop; word "ull".toList
      | 't' => drop; word "rue".toList
      | 'f' => drop; word "alse".toList
      | '"' => skippedString
      | '[' =>
          drop
          let _ ← arrayTail (skippedValue fuel)
          return ()
      | '{' =>
          drop
          objectTail (fun _ => do skippedString; colon; skippedValue fuel) true ()
      | c => if c = '-' || c.isDigit then skippedNumeral else throw .malformed

/-! ## Words -/

/-- The digits of a numeral as far as a 64-bit word can hold them, and how many are left over. -/
def significand : Nat → List Char → Nat × Nat
  | value, [] => (value, 0)
  | value, c :: rest =>
      let next := 10 * value + Text.digitValue c
      if next < 0x10000000000000000 then significand next rest else (value, rest.length + 1)

/-- Whether a numeral written with a fraction, an exponent or too many digits lies beyond the
binary64 range when its leading digits are scaled by a power of ten. -/
def exceedsBinary64 (n : Numeral) : Bool :=
  let fraction := n.fraction.getD []
  let (leading, dropped) := significand 0 n.whole
  let (coefficient, unread) := significand leading fraction
  let power := (n.exponent.bind Text.intOfDigits?).getD 0
  let exponent : Int := dropped + unread - fraction.length + power
  if coefficient = 0 || exponent < 0 then false
  else if 308 < exponent then true
  else
    match (Binary64.ofInt coefficient).toInt?, (Binary64.ofDecimal false 1 exponent).toInt? with
    | some a, some b => !(Binary64.ofInt (a * b)).isFinite
    | _, _ => true

/-- A word is written without fraction, exponent or minus sign. -/
def wordOf (bits : Nat) (n : Numeral) : Reader Nat :=
  if exceedsBinary64 n then throw .malformed
  else
    let value := Text.natOfDigits n.whole
    if n.negative || n.fraction.isSome || n.exponent.isSome || Nat.pow 2 bits ≤ value then
      throw .wrongShape
    else return value

def unsigned (bits : Nat) : Reader Nat := do
  let c ← token
  if c = '-' || c.isDigit then wordOf bits (← numeral) else refuse

def flag : Reader Bool := do
  match ← token with
  | 't' => drop; word "rue".toList; return true
  | 'f' => drop; word "alse".toList; return false
  | _ => refuse

/-! ## Shapes -/

/-- Goes one level down into an array or object that starts here. -/
def enter {α : Type} (depth : Nat) (inside : Nat → Reader α) : Reader α :=
  match depth with
  | 0 => throw .malformed
  | depth + 1 => do
      drop
      inside depth

mutual

def shaped : Shape → Nat → Reader Datum
  | .text, _ => return .text (← text)
  | .flag, _ => return .flag (← flag)
  | .word bits, _ => return .word (← unsigned bits)
  | .value, depth => return .value (← value depth)
  | .optional shape, depth => do
      if (← token) = 'n' then
        drop
        word "ull".toList
        return .absent
      else shaped shape depth
  | .list shape, depth => do
      if (← token) = '[' then
        enter depth fun inner => return .list (← arrayTail (shaped shape inner))
      else refuse
  | .dict shape, depth => do
      if (← token) = '{' then
        enter depth fun inner => do
          let entry := fun entries => do
            let key ← string
            colon
            return insertEntry key (← shaped shape inner) entries
          return .dict (← objectTail entry true [])
      else refuse
  | .record fields closed, depth => do
      match ← token with
      | '[' =>
          enter depth fun inner => do
            let items ← positional fields inner true
            endArray
            return .list items
      | '{' =>
          enter depth fun inner => do
            let entry := fun given => do
              let key ← string
              if (lookupEntry key given).isSome then throw (.duplicateField key)
              else if fields.names.contains key then
                colon
                return (key, ← member fields inner key) :: given
              else if closed then throw (.unknownField key fields.names)
              else
                colon
                skippedValue ((← get).length + 1)
                return given
            match fields.complete (← objectTail entry true []) with
            | .ok items => return .list items
            | .error name => throw (.missingField name)
      | _ => refuse

/-- The fields of a record that is written as an array. -/
def positional : Fields → Nat → Bool → Reader (List Datum)
  | .nil, _, _ => return []
  | .cons _ shape default? rest, depth, first => do
      if ← hasElement first then
        let head ← shaped shape depth
        return head :: (← positional rest depth false)
      else
        match default? with
        | some datum => return datum :: (← positional rest depth first)
        | none => throw .wrongShape

/-- The datum of the field of the given name. -/
def member : Fields → Nat → String → Reader Datum
  | .nil, _, _ => throw .malformed
  | .cons name shape _ rest, depth, key =>
      if key = name then shaped shape depth else member rest depth key

end

/-- Loads a whole text of the given shape. -/
def load (shape : Shape) (text : String) : Except Fault Datum :=
  (shaped shape maxDepth).run text

end MessageQuery.Json.Reader
