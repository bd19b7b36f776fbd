import MessageQuery.Value

/-!
# Schemas

A datatype declares the fields of its messages, and constants that name values. A catalog maps
topics to datatype names and datatype names to datatypes. A registry is a published catalog;
publications are told apart by their generation.
-/

namespace MessageQuery

/-- The type of opaque structured content. -/
def jsonType : String :=
  "json"

/-- How the types of single values treat literals. -/
inductive ScalarKind where
  | bool
  | number
  | text
deriving DecidableEq

def ScalarKind.ofType? : String → Option ScalarKind
  | "bool" => some .bool
  | "byte" | "char" | "int8" | "uint8" | "int16" | "uint16" | "int32" | "uint32" | "int64"
  | "uint64" | "float32" | "float64" => some .number
  | "string" | "wstring" => some .text
  | _ => none

/-- Points in time and durations have two numeric fields. -/
def isTimeType (type : String) : Bool :=
  type == "time" || type == "duration"

def timeFields : List String :=
  ["sec", "nsec"]

structure FieldDefinition where
  name : String
  type : String
  isArray : Bool := false
  isConstant : Bool := false
  value? : Option Value := none

namespace FieldDefinition

def array (name type : String) : FieldDefinition :=
  { name, type, isArray := true }

def constant (name type : String) (value : Value) : FieldDefinition :=
  { name, type, isConstant := true, value? := some value }

/-- Whether the declared value is present and equals the given one. -/
def declares (definition : FieldDefinition) (value : Value) : Bool :=
  match definition.value? with
  | some declared => declared.equal value
  | none => false

end FieldDefinition

structure Datatype where
  definitions : List FieldDefinition

namespace Datatype

/-- The first message field of the given name; constants are no fields. -/
def field? (datatype : Datatype) (name : String) : Option FieldDefinition :=
  datatype.definitions.find? fun definition => !definition.isConstant && definition.name == name

/-- The name of the first constant whose declared value equals the given one. -/
def constantName? (datatype : Datatype) (value : Value) : Option String :=
  (datatype.definitions.find? fun definition =>
    definition.isConstant && definition.declares value).map FieldDefinition.name

end Datatype

structure Catalog where
  /-- From the name of a topic to the name of its datatype. -/
  topics : Dict String
  datatypes : Dict Datatype

namespace Catalog

def empty : Catalog :=
  ⟨.empty, .empty⟩

def ofLists (topics : List (String × String)) (datatypes : List (String × Datatype)) : Catalog :=
  ⟨.ofList topics, .ofList datatypes⟩

def withTopics (catalog : Catalog) (topics : List (String × String)) : Catalog :=
  { catalog with topics := .ofList topics }

def withDatatypes (catalog : Catalog) (datatypes : List (String × Datatype)) : Catalog :=
  { catalog with datatypes := .ofList datatypes }

def datatypeOfTopic? (catalog : Catalog) (topic : String) : Option String :=
  catalog.topics.get? topic

def datatype? (catalog : Catalog) (name : String) : Option Datatype :=
  catalog.datatypes.get? name

end Catalog

structure Registry where
  generation : Nat
  catalog : Catalog

end MessageQuery
