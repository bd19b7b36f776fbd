import MessageQuery.Json.Load
import MessageQuery.Json.Writer
import MessageQuery.Schema.Basic
import MessageQuery.Yaml.Load

/-!
# Schema documents

The shapes of field definitions, datatypes and catalogs as documents, what their data mean, and
how they are written as JSON text. A topic that is given twice keeps its last datatype.
-/

namespace MessageQuery

open Document

namespace FieldDefinition

def shape : Shape :=
  .record
    (.cons "name" .text none <| .cons "type" .text none <|
      .cons "isArray" .flag (some (.flag false)) <|
      .cons "isConstant" .flag (some (.flag false)) <|
      .cons "value" (.optional .value) (some .absent) .nil)
    false

def ofDatum? : Datum → Option FieldDefinition
  | .list [.text name, .text type, .flag isArray, .flag isConstant, .absent] =>
      some { name, type, isArray, isConstant }
  | .list [.text name, .text type, .flag isArray, .flag isConstant, .value declared] =>
      some { name, type, isArray, isConstant, value? := some declared }
  | _ => none

def write (definition : FieldDefinition) : List Char :=
  Json.writeObject <|
    [("name", Json.writeString definition.name), ("type", Json.writeString definition.type),
      ("isArray", Json.writeBool definition.isArray),
      ("isConstant", Json.writeBool definition.isConstant)] ++
    (match definition.value? with
      | some declared => [("value", Json.writeValue declared)]
      | none => [])

end FieldDefinition

namespace Datatype

def shape : Shape :=
  .record (.cons "definitions" (.list FieldDefinition.shape) none .nil) false

def ofDatum? : Datum → Option Datatype
  | .list [.list definitions] => (definitions.mapM FieldDefinition.ofDatum?).map Datatype.mk
  | _ => none

def write (datatype : Datatype) : List Char :=
  Json.writeObject
    [("definitions", Json.writeArray (datatype.definitions.map FieldDefinition.write))]

/-- Datatypes by name. -/
def dictShape : Shape :=
  .dict shape

def entriesOfDatum? : Datum → Option (List (String × Datatype))
  | .dict entries => entries.mapM fun entry => (ofDatum? entry.2).map (entry.1, ·)
  | _ => none

end Datatype

namespace Catalog

def topicShape : Shape :=
  .record (.cons "name" .text none <| .cons "datatype" .text none .nil) false

def topicOfDatum? : Datum → Option (String × String)
  | .list [.text name, .text datatype] => some (name, datatype)
  | _ => none

def writeTopic (topic : String × String) : List Char :=
  Json.writeObject
    [("name", Json.writeString topic.1), ("datatype", Json.writeString topic.2)]

def shape : Shape :=
  .record
    (.cons "topics" (.list topicShape) (some (.list [])) <|
      .cons "datatypes" Datatype.dictShape (some (.dict [])) .nil)
    true

def ofDatum? : Datum → Option Catalog
  | .list [.list topics, datatypes] => do
      return ofLists (← topics.mapM topicOfDatum?) (← Datatype.entriesOfDatum? datatypes)
  | _ => none

end Catalog

namespace Json

/-- Loads a text of the given shape and gives its datum a meaning. -/
def load {α : Type} (shape : Shape) (meaning? : Datum → Option α) (text : String) :
    Except Fault α := do
  match meaning? (← Reader.load shape text) with
  | some a => return a
  | none => throw .wrongShape

end Json

def Datatype.ofJson? : String → Except Json.Fault Datatype :=
  Json.load shape ofDatum?

def Datatype.entriesOfJson? : String → Except Json.Fault (List (String × Datatype)) :=
  Json.load dictShape entriesOfDatum?

def Catalog.ofJson? : String → Except Json.Fault Catalog :=
  Json.load shape ofDatum?

def Catalog.ofYaml? : String → Option Catalog :=
  Yaml.load? shape ofDatum?

end MessageQuery
