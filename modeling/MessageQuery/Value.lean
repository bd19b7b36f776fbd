import MessageQuery.Dict
import MessageQuery.Number

/-!
# Message values

A decoded value. Typed fields and opaque content share this form. The fields of an object are
sorted by key, which `ofEntries` ensures.
-/

namespace MessageQuery

inductive Value where
  | null
  | bool (b : Bool)
  | number (n : Number)
  | string (s : String)
  | array (items : List Value)
  | object (fields : List (String × Value))

namespace Value

/-- As the first key of an object in a document, this key makes the object stand for the number that
its value spells. -/
def numberKey : String :=
  "$serde_json::private::Number"

/-- Of the values given for one key the last one stays. -/
def ofEntries (entries : List (String × Value)) : Value :=
  .object (entries.foldl (fun fields entry => insertEntry entry.1 entry.2 fields) [])

def ofInt (n : Int) : Value :=
  .number (.ofInt n)

mutual

/-- Equality up to the form of numbers; a value that holds NaN differs from itself. -/
def equal : Value → Value → Bool
  | .null, .null => true
  | .bool a, .bool b => a == b
  | .number a, .number b => a.equal b
  | .string a, .string b => a == b
  | .array a, .array b => equalItems a b
  | .object a, .object b => equalFields a b
  | _, _ => false

def equalItems : List Value → List Value → Bool
  | [], [] => true
  | a :: restA, b :: restB => equal a b && equalItems restA restB
  | _, _ => false

def equalFields : List (String × Value) → List (String × Value) → Bool
  | [], [] => true
  | (keyA, a) :: restA, (keyB, b) :: restB =>
      keyA == keyB && equal a b && equalFields restA restB
  | _, _ => false

end

instance : BEq Value := ⟨equal⟩

def asArray? : Value → Option (List Value)
  | .array items => some items
  | _ => none

def get? (key : String) : Value → Option Value
  | .object fields => lookupEntry key fields
  | _ => none

/-- An offset as a position in a list of the given length; negative offsets count from the end. -/
def fromEnd (length : Nat) (offset : Int) : Int :=
  if offset < 0 then length + offset else offset

def elementAt? (items : List Value) (offset : Int) : Option Value :=
  let position := fromEnd items.length offset
  if position < 0 then none else items[position.toNat]?

def at? (offset : Int) : Value → Option Value
  | .array items => elementAt? items offset
  | _ => none

/-- An integer number, or a string that spells one, as an array offset. -/
def asOffset? : Value → Option Int
  | .number n => n.asOffset?
  | .string s => (Number.parse? s.toList).bind Number.asOffset?
  | _ => none

/-- Whether the same instance equals itself. Arrays and objects are shared and compare by
identity first; a bare number compares by its value, so NaN does not. -/
def sameInstanceEqual : Value → Bool
  | .number n => n.equal n
  | _ => true

end Value

end MessageQuery
