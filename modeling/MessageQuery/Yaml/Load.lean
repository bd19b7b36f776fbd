import MessageQuery.Document.Shape
import MessageQuery.Yaml.Node
import MessageQuery.Yaml.Plain

/-!
# Loading YAML documents

A loader reads the datum of a shape from the nodes of a text. Keys and texts take any scalar as it
is written. A text without content, or an empty plain scalar, stands for an empty collection.
-/

namespace MessageQuery.Yaml

open Document

namespace Node

/-- Sequences and mappings may nest this deep. -/
def maxDepth : Nat :=
  128

def text? : Node → Option String
  | .scalar text _ => some (String.ofList text)
  | _ => none

def isEmptyContent : Node → Bool
  | .nothing => true
  | .scalar text isPlain => isPlain && text.isEmpty
  | _ => false

/-- No content, or a plain scalar that is empty or null. -/
def isAbsent : Node → Bool
  | .nothing => true
  | .scalar text isPlain => isPlain && (text.isEmpty || Plain.isNull text)
  | _ => false

def flag? : Node → Option Bool
  | .scalar text true => Plain.bool? text
  | _ => none

def word? (bits : Nat) : Node → Option Nat
  | .scalar text true => (Plain.int? text).bind fun n =>
      if 0 ≤ n ∧ n.toNat < Nat.pow 2 bits then some n.toNat else none
  | _ => none

/-- The items of a sequence, or of nothing. -/
def items? : Node → Option (List Node)
  | .sequence items => some items
  | node => if node.isEmptyContent then some [] else none

def entries? : Node → Option (List (Node × Node))
  | .mapping entries => some entries
  | node => if node.isEmptyContent then some [] else none

/-! ## Values -/

def valueOfEntries? (value? : Node → Option Value) :
    List (Node × Node) → List (String × Value) → Option Value
  | [], fields => some (.object fields)
  | (key, node) :: rest, fields => do
      let name ← key.text?
      if fields.isEmpty && name == Value.numberKey then
        let n ← (Number.parse? (← node.text?).toList)
        if rest.isEmpty then some (.number n) else none
      else valueOfEntries? value? rest (insertEntry name (← value? node) fields)

/-- A value whose nested values are read by the given function; without one it may not nest. -/
def valueOver? (nested? : Option (Node → Option Value)) : Node → Option Value
  | .nothing => some .null
  | .scalar text isPlain =>
      some (if isPlain then Plain.value text else .string (String.ofList text))
  | .sequence items => do return .array (← items.mapM (← nested?))
  | .mapping entries => do valueOfEntries? (← nested?) entries []

def value? : Nat → Node → Option Value
  | 0 => valueOver? none
  | depth + 1 => valueOver? (some (value? depth))

/-! ## Shapes -/

/-- Collections lie one level down; what stands for an empty one does not. -/
def levelBelow? (depth : Nat) (node : Node) : Option Nat :=
  match node, depth with
  | .sequence _, 0 | .mapping _, 0 => none
  | _, depth => some (depth - 1)

mutual

def shaped? : Shape → Nat → Node → Option Datum
  | .text, _, node => node.text?.map .text
  | .flag, _, node => node.flag?.map .flag
  | .word bits, _, node => (node.word? bits).map .word
  | .value, depth, node => (node.value? depth).map .value
  | .optional shape, depth, node =>
      if node.isAbsent then some .absent else shaped? shape depth node
  | .list shape, depth, node => do
      let inner ← node.levelBelow? depth
      return .list (← (← node.items?).mapM (shaped? shape inner))
  | .dict shape, depth, node => do
      let inner ← node.levelBelow? depth
      let entries ← (← node.entries?).mapM fun entry => do
        return (← entry.1.text?, ← shaped? shape inner entry.2)
      return .dict (Dict.ofList entries).entries
  | .record fields closed, depth, node => do
      let inner ← node.levelBelow? depth
      let entries ← (← node.entries?).mapM fun entry => do
        return (← entry.1.text?, entry.2)
      let declared := entries.filter fun entry => fields.names.contains entry.1
      if closed && declared.length < entries.length then none
      else if (declared.map Prod.fst).eraseDups.length < declared.length then none
      else
        let given ← declared.mapM fun entry => member? fields inner entry.1 entry.2
        return .list (← (fields.complete given).toOption)

/-- The named datum of the field of the given name. -/
def member? : Fields → Nat → String → Node → Option (String × Datum)
  | .nil, _, _, _ => none
  | .cons name shape _ rest, depth, key, node =>
      if key = name then (shaped? shape depth node).map (key, ·) else member? rest depth key node

end

end Node

/-- Loads a text of the given shape and gives its datum a meaning. -/
def load? {α : Type} (shape : Shape) (meaning? : Datum → Option α) (text : String) : Option α := do
  meaning? (← Node.shaped? shape Node.maxDepth (← Node.ofText? text))

end MessageQuery.Yaml

namespace MessageQuery

def Value.ofYaml? (text : String) : Option Value :=
  (Yaml.Node.ofText? text).bind (Yaml.Node.value? Yaml.Node.maxDepth)

end MessageQuery
