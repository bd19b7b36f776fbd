import MessageQuery.Value

/-!
# Document shapes

A shape says what a document has to look like to be loaded: plain text, a flag, a word of so many
bits, any value, or lists, dictionaries and records of shapes. A datum is what a loader read for
a shape; a record becomes the list of its fields in declared order.
-/

namespace MessageQuery.Document

inductive Datum where
  | text (s : String)
  | flag (b : Bool)
  | word (n : Nat)
  | value (v : Value)
  | absent
  | list (items : List Datum)
  | dict (entries : List (String × Datum))

mutual

inductive Shape where
  | text
  | flag
  | word (bits : Nat)
  | value
  /-- Null or nothing stands for an absent datum. -/
  | optional (shape : Shape)
  | list (shape : Shape)
  /-- Of the entries given for one key the last one stays. -/
  | dict (shape : Shape)
  /-- A closed record refuses fields that it does not declare; others pass over them. -/
  | record (fields : Fields) (closed : Bool)

/-- Declared fields; one without a default has to be given. -/
inductive Fields where
  | nil
  | cons (name : String) (shape : Shape) (default? : Option Datum) (rest : Fields)

end

namespace Fields

def names : Fields → List String
  | .nil => []
  | .cons name _ _ rest => name :: rest.names

/-- The datum of each field from what was given for it, in declared order; the name of the first
field that is missing if there is one. -/
def complete : Fields → List (String × Datum) → Except String (List Datum)
  | .nil, _ => .ok []
  | .cons name _ default? rest, given => do
      match (lookupEntry name given).or default? with
      | some datum => return datum :: (← rest.complete given)
      | none => throw name

end Fields

end MessageQuery.Document
