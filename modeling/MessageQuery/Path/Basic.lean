import MessageQuery.Value

/-!
# Message paths

A path names values inside the messages of a topic. Its components are applied from left to
right; operands are literals or references to global variables.
-/

namespace MessageQuery

namespace Path

/-- A literal, or a reference to a global variable with the byte position of its dollar sign. -/
inductive Operand where
  | literal (value : Value)
  | reference (name : String) (position : Nat)

/-- Keeps what has the given value at the field path. `written` is the text between the braces;
the positions are those of the first name and of the value. -/
structure Filter where
  path : List String
  value : Operand
  written : String
  namePosition : Nat
  valuePosition : Nat

/-- The bounds of a slice are inclusive; one left out is the first or the last element. -/
inductive Component where
  | name (name : String)
  | index (operand : Operand)
  | slice (start stop : Option Operand)
  | filter (filter : Filter)

/-- Asks for the addressed values as full JSON. Walking is unaffected. -/
inductive Modifier where
  | json
deriving DecidableEq

end Path

/-- `source` is the text exactly as it was read. -/
structure Path where
  source : String
  topic : String
  components : List Path.Component
  modifier : Option Path.Modifier

namespace Path

def Operand.variable? : Operand → Option String
  | .literal _ => none
  | .reference name _ => some name

def Component.operands : Component → List Operand
  | .name _ => []
  | .index operand => [operand]
  | .slice start stop => start.toList ++ stop.toList
  | .filter f => [f.value]

def operands (path : Path) : List Operand :=
  path.components.flatMap Component.operands

/-- The names of the variables that the path refers to, sorted and without repetition. -/
def variableNames (path : Path) : List String :=
  sortedNames (path.operands.filterMap Operand.variable?)

def hasVariables (path : Path) : Bool :=
  path.operands.any fun operand => operand.variable?.isSome

def Operand.equal : Operand → Operand → Bool
  | .literal a, .literal b => a.equal b
  | .reference nameA positionA, .reference nameB positionB =>
      nameA == nameB && positionA == positionB
  | _, _ => false

instance : BEq Operand := ⟨Operand.equal⟩

def Filter.equal (first second : Filter) : Bool :=
  first.path == second.path && first.value == second.value && first.written == second.written &&
    first.namePosition == second.namePosition && first.valuePosition == second.valuePosition

instance : BEq Filter := ⟨Filter.equal⟩

def Component.equal : Component → Component → Bool
  | .name a, .name b => a == b
  | .index a, .index b => a == b
  | .slice startA stopA, .slice startB stopB => startA == startB && stopA == stopB
  | .filter a, .filter b => a == b
  | _, _ => false

instance : BEq Component := ⟨Component.equal⟩

def equal (first second : Path) : Bool :=
  first.source == second.source && first.topic == second.topic &&
    first.components == second.components && first.modifier == second.modifier

instance : BEq Path := ⟨equal⟩

end Path

end MessageQuery
