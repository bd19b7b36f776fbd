import MessageQuery.Text.Quoted
import MessageQuery.Value

/-!
# Writing JSON text

Compact text without white space. In strings only the double quote, the backslash and the controls
below the space are escaped. The fields of an object value come in the order of their keys.
-/

namespace MessageQuery.Json

def escapedChar (c : Char) : List Char :=
  if c = '"' then ['\\', '"']
  else if c = '\\' then ['\\', '\\']
  else if c = '\x08' then ['\\', 'b']
  else if c = '\t' then ['\\', 't']
  else if c = '\n' then ['\\', 'n']
  else if c = '\x0c' then ['\\', 'f']
  else if c = '\r' then ['\\', 'r']
  else if c.toNat < 0x20 then
    ['\\', 'u', '0', '0', Text.hexDigit (c.toNat / 16), Text.hexDigit (c.toNat % 16)]
  else [c]

def writeString (s : String) : List Char :=
  '"' :: s.toList.flatMap escapedChar ++ ['"']

/-- Texts with commas between them. -/
def separated : List (List Char) → List Char
  | [] => []
  | [last] => last
  | head :: next :: rest => head ++ ',' :: separated (next :: rest)

def writeArray (items : List (List Char)) : List Char :=
  '[' :: separated items ++ [']']

/-- Members whose values are written already, in the given order. -/
def writeObject (members : List (String × List Char)) : List Char :=
  '{' :: separated (members.map fun member => writeString member.1 ++ ':' :: member.2) ++ ['}']

def writeBool (b : Bool) : List Char :=
  if b then "true".toList else "false".toList

mutual

def writeValue : Value → List Char
  | .null => "null".toList
  | .bool b => writeBool b
  | .number n => n.toJson
  | .string s => writeString s
  | .array items => writeArray (writeItems items)
  | .object fields => writeObject (writeFields fields)

def writeItems : List Value → List (List Char)
  | [] => []
  | item :: rest => writeValue item :: writeItems rest

def writeFields : List (String × Value) → List (String × List Char)
  | [] => []
  | (key, field) :: rest => (key, writeValue field) :: writeFields rest

end

end MessageQuery.Json

namespace MessageQuery

def Value.toJson (value : Value) : String :=
  String.ofList (Json.writeValue value)

end MessageQuery
