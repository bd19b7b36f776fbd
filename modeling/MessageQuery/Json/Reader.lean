import MessageQuery.Text.Bytes
import MessageQuery.Text.Hexadecimal

/-!
# Reading JSON text

Readers take characters from the front of a text. A fault tells a text that ends too early from
one that is malformed, and both from well-formed text of another shape. The first fault from the
left is the one reported.
-/

namespace MessageQuery.Json

inductive Fault where
  | malformed
  | truncated
  | wrongShape
  | unreadableNumber
  | missingField (name : String)
  | duplicateField (name : String)
  | unknownField (name : String) (declared : List String)
deriving DecidableEq

def ticked (name : String) : String :=
  "`" ++ name ++ "`"

/-- The declared fields as the alternatives of a sentence. -/
def alternatives : List String → String
  | [] => "none"
  | [only] => ticked only
  | [first, second] => ticked first ++ " or " ++ ticked second
  | names => "one of " ++ String.intercalate ", " (names.map ticked)

/-- The faults of shape that name something have a message. -/
def Fault.message? : Fault → Option String
  | .missingField name => some ("missing field " ++ ticked name)
  | .duplicateField name => some ("duplicate field " ++ ticked name)
  | .unknownField name declared =>
      some ("unknown field " ++ ticked name ++ ", expected " ++ alternatives declared)
  | .unreadableNumber => some "failed to read big number"
  | .malformed | .truncated | .wrongShape => none

abbrev Reader (α : Type) := StateT (List Char) (Except Fault) α

namespace Reader

def peek : Reader (Option Char) := fun cs => .ok (cs.head?, cs)

def drop : Reader Unit := fun cs => .ok ((), cs.tail)

def isSpace (c : Char) : Bool :=
  c == ' ' || c == '\t' || c == '\n' || c == '\r'

/-- The first character after white space. -/
def peekToken : Reader (Option Char) := fun cs =>
  let rest := cs.dropWhile isSpace
  .ok (rest.head?, rest)

/-- The first character after white space of a text that must not end here. -/
def token : Reader Char := do
  match ← peekToken with
  | some c => return c
  | none => throw .truncated

/-- The given letters. -/
def word : List Char → Reader Unit
  | [] => pure ()
  | letter :: letters => fun cs =>
      match cs with
      | [] => .error .truncated
      | c :: rest => if c = letter then word letters rest else .error .malformed

/-! ## Strings -/

/-- Four hexadecimal digits. Fewer than four bytes count as the end of the text. -/
def hexUnit : Reader Nat := fun cs =>
  if Text.byteLength (cs.take 4) < 4 then .error .truncated
  else
    match (cs.take 4).mapM Text.hexValue? with
    | some [a, b, c, d] => .ok (Text.natOfBase 16 [a, b, c, d], cs.drop 4)
    | _ => .error .malformed

def char : Reader Char := fun cs =>
  match cs with
  | [] => .error .truncated
  | c :: rest => .ok (c, rest)

/-- The character that a letter after a backslash stands for. -/
def simpleEscape? : Char → Option Char
  | '"' => some '"'
  | '\\' => some '\\'
  | '/' => some '/'
  | 'b' => some '\x08'
  | 'f' => some '\x0c'
  | 'n' => some '\n'
  | 'r' => some '\r'
  | 't' => some '\t'
  | _ => none

/-- A code unit, or two that form a surrogate pair. -/
def unicodeEscape : Reader Char := do
  let high ← hexUnit
  if 0xDC00 ≤ high ∧ high ≤ 0xDFFF then throw .malformed
  else if high < 0xD800 ∨ 0xDBFF < high then return Char.ofNat high
  else
    word ['\\', 'u']
    let low ← hexUnit
    if 0xDC00 ≤ low ∧ low ≤ 0xDFFF then
      return Char.ofNat (0x10000 + 0x400 * (high - 0xD800) + (low - 0xDC00))
    else throw .malformed

/-- What follows a backslash. -/
def escape : Reader Char := do
  let c ← char
  if c = 'u' then unicodeEscape
  else
    match simpleEscape? c with
    | some plain => return plain
    | none => throw .malformed

/-- Code units are passed over one by one, so half a surrogate pair is no fault. -/
def skippedEscape : Reader Char := do
  let c ← char
  if c = 'u' then
    let _ ← hexUnit
    return c
  else if (simpleEscape? c).isSome then return c
  else throw .malformed

/-- The characters of a string up to its closing quote, which is taken. -/
def stringChars (escape : Reader Char) : Nat → Reader (List Char)
  | 0 => throw .truncated
  | fuel + 1 => do
      let c ← char
      if c = '"' then return []
      else if c = '\\' then return (← escape) :: (← stringChars escape fuel)
      else if c.toNat < 0x20 then throw .malformed
      else return c :: (← stringChars escape fuel)

/-- A string whose opening quote is next. -/
def string : Reader String := do
  drop
  let cs ← get
  return String.ofList (← stringChars escape (cs.length + 1))

def skippedString : Reader Unit := do
  drop
  let cs ← get
  let _ ← stringChars skippedEscape (cs.length + 1)
  return ()

/-! ## Numbers -/

/-- The parts of a number as it is written. -/
structure Numeral where
  negative : Bool
  whole : List Char
  fraction : Option (List Char)
  exponent : Option (List Char)

def Numeral.text (numeral : Numeral) : List Char :=
  (if numeral.negative then ['-'] else []) ++ numeral.whole ++
    (match numeral.fraction with
      | some digits => '.' :: digits
      | none => []) ++
    (match numeral.exponent with
      | some power => 'e' :: power
      | none => [])

/-- At least one digit. -/
def digits : Reader (List Char) := fun cs =>
  match cs with
  | [] => .error .truncated
  | c :: _ =>
      if c.isDigit then .ok (cs.takeWhile Char.isDigit, cs.dropWhile Char.isDigit)
      else .error .malformed

/-- Digits without a leading zero, unless zero stands alone. -/
def wholeDigits : Reader (List Char) := do
  let found ← digits
  match found with
  | '0' :: _ :: _ => throw .malformed
  | _ => return found

def fraction : Reader (Option (List Char)) := do
  if (← peek) = some '.' then drop; return some (← digits)
  else return none

def exponent : Reader (Option (List Char)) := do
  match ← peek with
  | some 'e' | some 'E' =>
      drop
      match ← peek with
      | some '+' => drop; return some ('+' :: (← digits))
      | some '-' => drop; return some ('-' :: (← digits))
      | _ => return some (← digits)
  | _ => return none

def numeral : Reader Numeral := do
  let negative := (← peek) = some '-'
  if negative then drop
  return ⟨negative, ← wholeDigits, ← fraction, ← exponent⟩

/-! ## Arrays and objects -/

/-- Whether another element follows, in which case the reader stands before it. -/
def hasElement (first : Bool) : Reader Bool := do
  let c ← token
  if c = ']' then return false
  else if first then return true
  else if c = ',' then
    drop
    if (← token) = ']' then throw .malformed else return true
  else throw .malformed

def endArray : Reader Unit := do
  if (← token) = ']' then drop else throw .malformed

def elements {α : Type} (element : Reader α) : Nat → Bool → Reader (List α)
  | 0, _ => return []
  | fuel + 1, first => do
      if ← hasElement first then
        let head ← element
        return head :: (← elements element fuel false)
      else return []

/-- The elements of an array after its opening bracket, and the closing bracket. -/
def arrayTail {α : Type} (element : Reader α) : Reader (List α) := do
  let cs ← get
  let items ← elements element (cs.length + 1) true
  endArray
  return items

/-- Whether another member follows, in which case the reader stands before its key. -/
def hasMember (first : Bool) : Reader Bool := do
  let c ← token
  if c = '}' then return false
  else
    let start ← if first then pure c else if c = ',' then drop; token else throw .malformed
    if start = '"' then return true else throw .malformed

def endObject : Reader Unit := do
  if (← token) = '}' then drop else throw .malformed

def colon : Reader Unit := do
  if (← token) = ':' then drop else throw .malformed

/-- Goes on from member to member; each step stands before the key and reads to the end of the
member. -/
def members {σ : Type} (member : σ → Reader σ) : Nat → Bool → σ → Reader σ
  | 0, _, state => return state
  | fuel + 1, first, state => do
      if ← hasMember first then members member fuel false (← member state)
      else return state

/-- The members of an object from the given place on, and the closing brace. -/
def objectTail {σ : Type} (member : σ → Reader σ) (first : Bool) (state : σ) : Reader σ := do
  let cs ← get
  let final ← members member (cs.length + 1) first state
  endObject
  return final

/-! ## Whole texts -/

/-- Runs a reader over a text after which only white space may follow. -/
def run {α : Type} (reader : Reader α) (text : String) : Except Fault α :=
  match reader text.toList with
  | .error fault => .error fault
  | .ok (result, rest) =>
      if (rest.dropWhile isSpace).isEmpty then .ok result else .error .malformed

end Reader

end MessageQuery.Json
