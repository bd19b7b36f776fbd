import MessageQuery.Path.Basic

/-!
# Global variables

A snapshot of global variables resolves the references of a path. Index and slice bounds need an
integer: a lenient resolution opens a bound that has none, a strict one fails. Filter values are
taken as they are; a filter whose variable is missing keeps its reference and matches nothing.
-/

namespace MessageQuery

abbrev Globals := Dict Value

/-- A lookup fails for a path that was not declared, or in a strict resolution. -/
inductive QueryError where
  | pathNotCached (path : String)
  | nonNumericSliceBound (name path : String)
deriving DecidableEq

def QueryError.message : QueryError → String
  | .pathNotCached path => "`" ++ path ++ "` is not in the list of cached paths"
  | .nonNumericSliceBound name path =>
      "global variable `$" ++ name ++ "` used as a slice bound in `" ++ path ++
        "` is not an integer"

namespace Globals

/-- The literal offset of a bound; otherwise the name of the variable that has none. -/
def offset (globals : Globals) : Path.Operand → Except String Path.Operand
  | .literal value => .ok (.literal value)
  | .reference name _ =>
      match (globals.get? name).bind Value.asOffset? with
      | some n => .ok (.literal (.ofInt n))
      | none => .error name

def filterValue (globals : Globals) : Path.Operand → Path.Operand
  | .literal value => .literal value
  | .reference name position =>
      match globals.get? name with
      | some value => .literal value
      | none => .reference name position

def firstElement : Path.Operand :=
  .literal (.ofInt 0)

/-! ## Lenient resolution -/

/-- A start bound without an integer is the first element. -/
def start (globals : Globals) (operand : Path.Operand) : Path.Operand :=
  match globals.offset operand with
  | .ok bound => bound
  | .error _ => firstElement

/-- A stop bound without an integer is left out. -/
def stop? (globals : Globals) (operand : Path.Operand) : Option Path.Operand :=
  (globals.offset operand).toOption

def filter (globals : Globals) (f : Path.Filter) : Path.Filter :=
  { f with value := globals.filterValue f.value }

/-- An index is the slice from it to itself, so without an integer both bounds open. -/
def component (globals : Globals) : Path.Component → Path.Component
  | .name name => .name name
  | .index operand =>
      match globals.offset operand with
      | .ok bound => .index bound
      | .error _ => .slice (some firstElement) none
  | .slice start stop => .slice (start.map globals.start) (stop.bind globals.stop?)
  | .filter f => .filter (globals.filter f)

/-! ## Strict resolution -/

def strictBound? (globals : Globals) : Option Path.Operand → Except String (Option Path.Operand)
  | none => .ok none
  | some operand => (globals.offset operand).map some

/-- The name of the first variable that is not an integer if there is one. -/
def strictComponent (globals : Globals) : Path.Component → Except String Path.Component
  | .name name => .ok (.name name)
  | .index operand => (globals.offset operand).map .index
  | .slice start stop => do
      return .slice (← globals.strictBound? start) (← globals.strictBound? stop)
  | .filter f => .ok (.filter (globals.filter f))

/-! ## Changes between snapshots -/

/-- Whether the values of a name differ, or only one snapshot has one. A value that both snapshots
share is compared as one instance. -/
def differsSharing (shared : String → Bool) (old new : Globals) (name : String) : Bool :=
  match old.get? name, new.get? name with
  | some before, some after =>
      if shared name then !after.sameInstanceEqual else !before.equal after
  | none, none => false
  | _, _ => true

def changedNamesSharing (shared : String → Bool) (old new : Globals) : List String :=
  (sortedNames (old.keys ++ new.keys)).filter (differsSharing shared old new)

theorem mem_changedNamesSharing {shared : String → Bool} {old new : Globals} {name : String} :
    name ∈ changedNamesSharing shared old new ↔ differsSharing shared old new name = true := by
  rw [changedNamesSharing, List.mem_filter, mem_sortedNames, List.mem_append]
  refine ⟨And.right, fun differ => ⟨?_, differ⟩⟩
  unfold differsSharing at differ
  split at differ
  · next before _ found _ => exact .inl (Dict.mem_keys_of_get? found)
  · cases differ
  · next absent =>
      cases inOld : old.get? name with
      | some before => exact .inl (Dict.mem_keys_of_get? inOld)
      | none =>
          cases inNew : new.get? name with
          | some after => exact .inr (Dict.mem_keys_of_get? inNew)
          | none => exact absurd inNew (absent inOld)

/-- The names whose values differ between snapshots that share no value. -/
def changedNames (old new : Globals) : List String :=
  changedNamesSharing (fun _ => false) old new

end Globals

namespace Path

/-- A path without unresolved bounds, and the variables that were read. -/
structure Resolved where
  path : Path
  read : List String

def resolve (path : Path) (globals : Globals) : Resolved :=
  ⟨{ path with components := path.components.map globals.component }, path.variableNames⟩

def resolveStrict (path : Path) (globals : Globals) : Except QueryError Resolved :=
  match path.components.mapM globals.strictComponent with
  | .ok components => .ok ⟨{ path with components }, path.variableNames⟩
  | .error name => .error (.nonNumericSliceBound name path.source)

end Path

end MessageQuery
