import MessageQuery.Json.Reader
import MessageQuery.Value

/-!
# Reading values from JSON text

Arrays and objects nest up to a limit. Numbers are read with all their digits. An object whose
first key is the number key stands for a number that is spelled in a string.
-/

namespace MessageQuery.Json.Reader

/-- Arrays and objects may nest this deep. -/
def maxDepth : Nat :=
  127

def spelledNumber (text : List Char) : Reader Number :=
  match Number.parse? text with
  | some n => return n
  | none => throw .unreadableNumber

/-- A scalar is read through before its shape is refused, so that its own faults come first. -/
def refuse {α : Type} : Reader α := do
  match ← peek with
  | some 'n' => drop; word "ull".toList; throw .wrongShape
  | some 't' => drop; word "rue".toList; throw .wrongShape
  | some 'f' => drop; word "alse".toList; throw .wrongShape
  | some '"' => let _ ← string; throw .wrongShape
  | some '[' | some '{' => throw .wrongShape
  | some c =>
      if c = '-' || c.isDigit then
        let _ ← numeral
        throw .wrongShape
      else throw .malformed
  | none => throw .truncated

def text : Reader String := do
  if (← token) = '"' then string else refuse

def insertMember (element : Reader Value) (fields : List (String × Value)) :
    Reader (List (String × Value)) := do
  let key ← string
  colon
  return insertEntry key (← element) fields

/-- An object after its opening brace. -/
def objectValue (element : Reader Value) : Reader Value := do
  if ← hasMember true then
    let key ← string
    colon
    if key = Value.numberKey then
      let n ← spelledNumber (← text).toList
      endObject
      return .number n
    else
      let first ← element
      return .object (← objectTail (insertMember element) false [(key, first)])
  else
    endObject
    return .object []

/-- A value whose nested values are read by the given reader; without one it may not nest. -/
def valueOver (nested? : Option (Reader Value)) : Reader Value := do
  match ← token, nested? with
  | 'n', _ => drop; word "ull".toList; return .null
  | 't', _ => drop; word "rue".toList; return .bool true
  | 'f', _ => drop; word "alse".toList; return .bool false
  | '"', _ => return .string (← string)
  | '[', some nested => drop; return .array (← arrayTail nested)
  | '{', some nested => drop; objectValue nested
  | c, _ =>
      if c = '-' || c.isDigit then
        return .number (← spelledNumber (← numeral).text)
      else throw .malformed

/-- A value in which arrays and objects nest at most so deep. -/
def value : Nat → Reader Value
  | 0 => valueOver none
  | depth + 1 => valueOver (some (value depth))

end MessageQuery.Json.Reader

namespace MessageQuery

def Value.ofJson? (text : String) : Except Json.Fault Value :=
  (Json.Reader.value Json.Reader.maxDepth).run text

end MessageQuery
