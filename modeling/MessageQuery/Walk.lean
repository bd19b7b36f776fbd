import MessageQuery.Json.Writer
import MessageQuery.Path.Basic
import MessageQuery.Schema.Basic

/-!
# Walking messages

A walk applies the components of a resolved path to the places of a message, from left to right.
A place is a value together with what the catalog says about it. Schemas guide the walk: only
declared fields can be named and only arrays can be indexed, while untyped content admits any key
or offset. A reference that is still unresolved matches nothing.
-/

namespace MessageQuery

namespace Walk

/-- What the catalog says about a value. -/
inductive Context where
  | message (datatype : Datatype)
  | time
  | scalar (kind : ScalarKind)
  /-- An array field with the type of its elements. -/
  | array (type : String)
  | untyped

/-- `owner?` is the datatype that declares the field from which the value was read; its constants
name the value. -/
structure Place where
  value : Value
  context : Context
  owner? : Option Datatype

/-- The context of a value of the given type. Nested datatypes that are not registered are walked
without a schema. -/
def contextOfType (catalog : Catalog) (type : String) : Context :=
  if type = jsonType then .untyped
  else if isTimeType type then .time
  else
    match catalog.datatype? type with
    | some datatype => .message datatype
    | none =>
        match ScalarKind.ofType? type with
        | some kind => .scalar kind
        | none => .untyped

def contextOfField (catalog : Catalog) (field : FieldDefinition) : Context :=
  if field.isArray && field.type != jsonType then .array field.type
  else contextOfType catalog field.type

def elementContext? (catalog : Catalog) : Context → Option Context
  | .array type => some (contextOfType catalog type)
  | .untyped => some .untyped
  | _ => none

/-! ## Names -/

/-- The context and the owner of the named part of a value in the given context. -/
def partContext? (catalog : Catalog) (name : String) :
    Context → Option (Context × Option Datatype)
  | .message datatype =>
      (datatype.field? name).map fun field => (contextOfField catalog field, some datatype)
  | .time => if timeFields.contains name then some (.scalar .number, none) else none
  | .untyped => some (.untyped, none)
  | .scalar _ | .array _ => none

def name? (catalog : Catalog) (name : String) (place : Place) : Option Place := do
  let (context, owner?) ← partContext? catalog name place.context
  return ⟨← place.value.get? name, context, owner?⟩

/-! ## Indices and slices -/

def literalOffset? : Path.Operand → Option Int
  | .literal (.number n) => n.asOffset?
  | _ => none

def index? (catalog : Catalog) (operand : Path.Operand) (place : Place) : Option Place := do
  let context ← elementContext? catalog place.context
  return ⟨← place.value.at? (← literalOffset? operand), context, place.owner?⟩

/-- The elements from one offset to another, both included, as far as they exist. -/
def sliceItems (items : List Value) (start stop : Int) : List Value :=
  let first := max 0 (Value.fromEnd items.length start)
  let last := min (Value.fromEnd items.length stop) (items.length - 1)
  if first ≤ last then (items.take (last.toNat + 1)).drop first.toNat else []

/-- A bound left out stands for the given offset. -/
def boundOffset? (default : Int) : Option Path.Operand → Option Int
  | none => some default
  | some operand => literalOffset? operand

def slice (catalog : Catalog) (start stop : Option Path.Operand) (place : Place) : List Place :=
  match elementContext? catalog place.context, place.value.asArray?, boundOffset? 0 start,
      boundOffset? (-1) stop with
  | some context, some items, some first, some last =>
      (sliceItems items first last).map fun item => ⟨item, context, place.owner?⟩
  | _, _, _, _ => []

/-! ## Filters -/

/-- Equality of a value with a literal. A field of a declared type accepts a literal spelled in
another form of that type. -/
def matchesLiteral (context : Context) : Value → Value → Bool
  | .number a, .number b => a.equal b
  | .string a, .string b => a == b
  | .bool a, .bool b => a == b
  | .null, .null => true
  | .number a, .string s =>
      match context, Number.parse? s.toList with
      | .scalar .number, some b => a.equal b
      | _, _ => false
  | .string a, .number b =>
      match context with
      | .scalar .text => a == String.ofList b.toDecimal
      | _ => false
  | .bool a, .number b =>
      match context with
      | .scalar .bool => b.asUnsigned? == some a.toNat
      | _ => false
  | _, _ => false

def field? (catalog : Catalog) : List String → Place → Option Place
  | [], place => some place
  | name :: names, place => (name? catalog name place).bind (field? catalog names)

def matchesFilter (catalog : Catalog) (filter : Path.Filter) (place : Place) : Bool :=
  match filter.value, field? catalog filter.path place with
  | .literal expected, some found => matchesLiteral found.context found.value expected
  | _, _ => false

/-- A filter on an array keeps the elements that match; on another value it keeps the value. -/
def filter (catalog : Catalog) (f : Path.Filter) (place : Place) : List Place :=
  match elementContext? catalog place.context, place.value with
  | some context, .array items =>
      (items.map fun item => ⟨item, context, place.owner?⟩).filter (matchesFilter catalog f)
  | _, _ => [place].filter (matchesFilter catalog f)

/-! ## Whole paths -/

def step (catalog : Catalog) (component : Path.Component) (place : Place) : List Place :=
  match component with
  | .name name => (name? catalog name place).toList
  | .index operand => (index? catalog operand place).toList
  | .slice start stop => slice catalog start stop place
  | .filter f => filter catalog f place

def steps (catalog : Catalog) : List Path.Component → List Place → List Place
  | [], places => places
  | component :: components, places =>
      steps catalog components (places.flatMap (step catalog component))

theorem steps_append (catalog : Catalog) (first second : List Path.Component)
    (places : List Place) :
    steps catalog (first ++ second) places =
      steps catalog second (steps catalog first places) := by
  induction first generalizing places with
  | nil => rfl
  | cons component rest ih => exact ih _

/-- The context of the bodies of a topic's messages, if topic and datatype are known. -/
def rootContext? (catalog : Catalog) (topic : String) : Option Context := do
  let type ← catalog.datatypeOfTopic? topic
  match catalog.datatype? type with
  | some datatype => some (.message datatype)
  | none => if type = jsonType then some .untyped else none

/-- Only single values of a declared type are named. -/
def constantName? (place : Place) : Option String :=
  match place.context with
  | .scalar _ => place.owner?.bind fun datatype => datatype.constantName? place.value
  | _ => none

end Walk

/-- One value that a path addresses, with the path as it was written. -/
structure Item where
  value : Value
  path : String
  constantName? : Option String

def Item.write (item : Item) : List Char :=
  Json.writeObject <|
    [("value", Json.writeValue item.value), ("path", Json.writeString item.path)] ++
    (match item.constantName? with
      | some name => [("constantName", Json.writeString name)]
      | none => [])

/-- The items that a resolved path addresses in a message body; none if the topic or its datatype
is unknown. -/
def Path.items? (path : Path) (catalog : Catalog) (body : Value) : Option (List Item) :=
  (Walk.rootContext? catalog path.topic).map fun context =>
    (Walk.steps catalog path.components [⟨body, context, none⟩]).map fun place =>
      ⟨place.value, path.source, Walk.constantName? place⟩

end MessageQuery
