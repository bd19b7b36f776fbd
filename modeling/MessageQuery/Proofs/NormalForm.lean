import Mathlib.Data.List.Forall2
import MessageQuery.Path.Parser
import MessageQuery.Proofs.Bounds
import MessageQuery.Proofs.Walk.Guidance

/-!
# Paths that are filled in

A lenient resolution keeps the form of a path: its names, and its filters up to their values. What
it puts in place of a bound is no variable, and the only variables that it leaves are those of
filters that the snapshot does not have. So a second resolution finds nothing to do, and nothing
but the variables that the path names has a say in the first. A path in which a variable is left
addresses nothing.
-/

namespace MessageQuery

namespace Path

/-- What a resolution keeps of a component: all but its operands, whether it takes one element or
several. -/
inductive Outline where
  | name (name : String)
  | elements
  | filter (path : List String) (written : String) (namePosition valuePosition : Nat)

def Component.outline : Component → Outline
  | .name field => .name field
  | .index _ | .slice _ _ => .elements
  | .filter f => .filter f.path f.written f.namePosition f.valuePosition

def Component.filter? : Component → Option Filter
  | .filter f => some f
  | _ => none

def filters (path : Path) : List Filter :=
  path.components.filterMap Component.filter?

/-- How a path relates to the one that it becomes when the variables of a snapshot are filled in. -/
structure FilledIn (globals : Globals) (path filled : Path) : Prop where
  source : filled.source = path.source
  topic : filled.topic = path.topic
  modifier : filled.modifier = path.modifier
  length : filled.components.length = path.components.length
  outline : filled.components.map Component.outline = path.components.map Component.outline
  bounds : ∀ component ∈ filled.components, ∀ operand ∈ component.bounds,
    operand.variable? = none
  /-- The filters that still have a variable had it before, at the same position. -/
  filters : List.Forall₂
    (fun before after => ∀ name position, after.value = .reference name position ↔
      before.value = .reference name position ∧ globals.get? name = none)
    path.filters filled.filters

end Path

namespace Globals

open Path (Component Operand)

variable {globals : Globals} {operand : Operand} {component : Component}

/-! ## Operands -/

theorem offset_of_closed (closed : operand.variable? = none) :
    globals.offset operand = .ok operand := by
  cases operand with
  | literal value => rfl
  | reference name position => cases closed

theorem closed_of_offset {resolved : Operand} (found : globals.offset operand = .ok resolved) :
    resolved.variable? = none := by
  cases operand with
  | literal value =>
      cases found
      rfl
  | reference name position =>
      rw [offset] at found
      split at found
      · cases found
        rfl
      · cases found

theorem closed_start (operand : Operand) : Operand.variable? (globals.start operand) = none := by
  rw [start]
  split
  · next found => exact closed_of_offset found
  · rfl

theorem closed_of_stop? {resolved : Operand} (found : globals.stop? operand = some resolved) :
    resolved.variable? = none := by
  rw [stop?] at found
  cases isOffset : globals.offset operand with
  | ok bound =>
      rw [isOffset] at found
      cases found
      exact closed_of_offset isOffset
  | error name =>
      rw [isOffset] at found
      cases found

theorem filterValue_eq_reference_iff {name : String} {position : Nat} :
    globals.filterValue operand = .reference name position ↔
      operand = .reference name position ∧ globals.get? name = none := by
  cases operand with
  | literal value => simp [filterValue]
  | reference other place =>
      rw [filterValue]
      cases found : globals.get? other with
      | none =>
          constructor
          · rintro ⟨⟩
            exact ⟨rfl, found⟩
          · exact And.left
      | some value =>
          constructor
          · rintro ⟨⟩
          · rintro ⟨⟨⟩, missing⟩
            rw [found] at missing
            cases missing

/-! ## Components -/

theorem outline_component (globals : Globals) (component : Component) :
    (globals.component component).outline = component.outline := by
  cases component with
  | index operand =>
      rw [Globals.component]
      cases globals.offset operand <;> rfl
  | _ => rfl

theorem filter?_component (globals : Globals) (component : Component) :
    (globals.component component).filter? = component.filter?.map globals.filter := by
  cases component with
  | index operand =>
      rw [Globals.component]
      cases globals.offset operand <;> rfl
  | _ => rfl

/-- No bound of a resolved component is a variable. -/
theorem closed_of_mem_bounds
    (member : operand ∈ (globals.component component).bounds) : operand.variable? = none := by
  cases component with
  | name name => cases member
  | index bound =>
      rw [Globals.component] at member
      split at member
      · next found =>
          rw [List.mem_singleton.mp member]
          exact closed_of_offset found
      · rw [List.mem_singleton.mp member]
        rfl
  | slice start stop =>
      rcases List.mem_append.mp member with isStart | isStop
      · obtain ⟨bound, _, rfl⟩ := Option.map_eq_some_iff.mp (Option.mem_toList.mp isStart)
        exact closed_start bound
      · obtain ⟨bound, _, found⟩ := Option.bind_eq_some_iff.mp (Option.mem_toList.mp isStop)
        exact closed_of_stop? found
  | filter f => cases member

/-- Where there is nothing to fill in, a component stays as it is. -/
theorem component_eq_self (bounds : ∀ operand ∈ component.bounds, operand.variable? = none)
    (filters : ∀ f, component = .filter f → globals.filterValue f.value = f.value) :
    globals.component component = component := by
  cases component with
  | name name => rfl
  | index operand =>
      rw [Globals.component, offset_of_closed (bounds operand List.mem_cons_self)]
  | slice start stop =>
      have starts : start.map globals.start = start := by
        cases start with
        | none => rfl
        | some operand =>
            have closed := bounds operand (List.mem_append_left _ List.mem_cons_self)
            rw [Option.map_some, Globals.start, offset_of_closed closed]
      have stops : stop.bind globals.stop? = stop := by
        cases stop with
        | none => rfl
        | some operand =>
            have closed := bounds operand (List.mem_append_right _ List.mem_cons_self)
            rw [Option.bind_some, stop?, offset_of_closed closed]
            rfl
      rw [Globals.component, starts, stops]
  | filter f => rw [Globals.component, filter, filters f rfl]

theorem filterValue_filterValue (globals : Globals) (operand : Operand) :
    globals.filterValue (globals.filterValue operand) = globals.filterValue operand := by
  cases filled : globals.filterValue operand with
  | literal value => rfl
  | reference name position =>
      have missing := (filterValue_eq_reference_iff.mp filled).2
      exact filterValue_eq_reference_iff.mpr ⟨rfl, missing⟩

theorem component_component (globals : Globals) (component : Component) :
    globals.component (globals.component component) = globals.component component := by
  apply component_eq_self
  · exact fun operand member => closed_of_mem_bounds member
  · intro f isFilter
    cases component with
    | filter g =>
        cases isFilter
        exact globals.filterValue_filterValue g.value
    | index operand =>
        rw [Globals.component] at isFilter
        split at isFilter <;> cases isFilter
    | name | slice => cases isFilter

end Globals

/-! ## Variables that are left -/

namespace Walk

variable {catalog : Catalog} {f : Path.Filter} {components : List Path.Component}

theorem filter_eq_nil_of_reference (unresolved : f.value.variable?.isSome) (place : Place) :
    filter catalog f place = [] := by
  have never : ∀ place, ¬matchesFilter catalog f place = true := by
    intro place holds
    rw [matchesFilter] at holds
    split at holds
    · next isLiteral _ =>
        rw [isLiteral] at unresolved
        cases unresolved
    · cases holds
  rw [filter]
  split <;> exact List.filter_eq_nil_iff.mpr fun place _ => never place

/-- Nothing is left after a filter whose variable is. -/
theorem steps_eq_nil_of_reference (member : .filter f ∈ components)
    (unresolved : f.value.variable?.isSome) (places : List Place) :
    steps catalog components places = [] := by
  induction components generalizing places with
  | nil => cases member
  | cons component rest ih =>
      rcases List.mem_cons.mp member with here | later
      · have nowhere : places.flatMap (step catalog component) = [] := by
          rw [← here]
          exact List.flatMap_eq_nil_iff.mpr fun place _ =>
            filter_eq_nil_of_reference unresolved place
        rw [steps, nowhere, steps_nil]
      · exact ih later _

end Walk

/-! ## Whole paths -/

namespace Path

variable {path : Path} {globals : Globals}

theorem filledIn_resolve (path : Path) (globals : Globals) :
    FilledIn globals path (path.resolve globals).path where
  source := rfl
  topic := rfl
  modifier := rfl
  length := List.length_map _
  outline := by
    rw [resolve, List.map_map]
    exact List.map_congr_left fun component _ => globals.outline_component component
  bounds := by
    intro component member operand isBound
    obtain ⟨before, _, rfl⟩ := List.mem_map.mp member
    exact Globals.closed_of_mem_bounds isBound
  filters := by
    have filled : (path.resolve globals).path.filters = path.filters.map globals.filter := by
      rw [resolve, filters, filters, List.filterMap_map, List.map_filterMap]
      exact List.filterMap_congr fun component _ => globals.filter?_component component
    rw [filled, List.forall₂_map_right_iff, List.forall₂_same]
    intro f _ name position
    exact Globals.filterValue_eq_reference_iff

theorem hasVariables_iff : path.hasVariables = true ↔
    ∃ component ∈ path.components, ∃ operand ∈ component.operands, operand.variable?.isSome := by
  simp only [hasVariables, operands, List.any_eq_true, List.mem_flatMap]
  constructor
  · rintro ⟨operand, ⟨component, member, isOperand⟩, isVariable⟩
    exact ⟨component, member, operand, isOperand, isVariable⟩
  · rintro ⟨component, member, operand, isOperand, isVariable⟩
    exact ⟨operand, ⟨component, member, isOperand⟩, isVariable⟩

theorem variableNames_eq_nil_iff : path.variableNames = [] ↔ path.hasVariables = false := by
  rw [List.eq_nil_iff_forall_not_mem, ← Bool.not_eq_true, hasVariables, List.any_eq_true]
  simp only [variableNames, mem_sortedNames, List.mem_filterMap, Option.isSome_iff_exists]
  constructor
  · rintro none ⟨operand, member, name, named⟩
    exact none name ⟨operand, member, named⟩
  · rintro none name ⟨operand, member, named⟩
    exact none ⟨operand, member, name, named⟩

theorem mem_operands_of_mem_bounds {component : Component} {operand : Operand}
    (member : operand ∈ component.bounds) : operand ∈ component.operands := by
  cases component with
  | name | filter => cases member
  | index | slice => exact member

theorem resolve_of_closed (closed : path.hasVariables = false) (globals : Globals) :
    (path.resolve globals).path = path := by
  have literal : ∀ component ∈ path.components, ∀ operand ∈ component.operands,
      operand.variable? = none := by
    intro component member operand isOperand
    rw [← Bool.not_eq_true, hasVariables_iff] at closed
    by_contra isVariable
    exact closed ⟨component, member, operand, isOperand, Option.isSome_iff_ne_none.mpr isVariable⟩
  have same : path.components.map globals.component = path.components.map id := by
    apply List.map_congr_left
    intro component member
    apply Globals.component_eq_self
    · exact fun operand isBound =>
        literal component member operand (mem_operands_of_mem_bounds isBound)
    · rintro f rfl
      have isLiteral := literal _ member f.value List.mem_cons_self
      cases value : f.value with
      | literal expected => rfl
      | reference name position =>
          rw [value] at isLiteral
          cases isLiteral
  rw [resolve, same, List.map_id]

theorem resolve_resolve (path : Path) (globals : Globals) :
    ((path.resolve globals).path.resolve globals).path = (path.resolve globals).path := by
  have settled : (path.components.map globals.component).map globals.component =
      path.components.map globals.component := by
    rw [List.map_map]
    exact List.map_congr_left fun component _ => globals.component_component component
  exact congrArg (fun components => { path with components }) settled

/-- Whatever variable is left is that of a filter, and no place gets past it. -/
theorem items_eq_nil_of_hasVariables (isLeft : (path.resolve globals).path.hasVariables = true)
    {catalog : Catalog} {body : Value} {items : List Item}
    (evaluated : (path.resolve globals).path.items? catalog body = some items) : items = [] := by
  obtain ⟨component, member, operand, isOperand, isVariable⟩ := hasVariables_iff.mp isLeft
  have noBound : operand ∉ component.bounds := by
    intro isBound
    rw [(filledIn_resolve path globals).bounds component member operand isBound] at isVariable
    cases isVariable
  cases component with
  | name name => cases isOperand
  | index bound => exact absurd isOperand noBound
  | slice start stop => exact absurd isOperand noBound
  | filter f =>
      rw [List.mem_singleton.mp isOperand] at isVariable
      rw [items?] at evaluated
      obtain ⟨context, _, rfl⟩ := Option.map_eq_some_iff.mp evaluated
      rw [Walk.steps_eq_nil_of_reference member isVariable, List.map_nil]

/-- A lenient resolution reads the variables that the path names, and fills them in: the form of
the path stays, and a variable stays only as the value of a filter whose name the snapshot does not
have. To resolve again changes nothing, and neither does it for a path without variables. What the
snapshot holds under other names makes no difference in either mode. A path in which a variable is
left has no items in any message. -/
theorem resolution_reaches_normal_form (path : Path) (globals : Globals) :
    (path.resolve globals).read = path.variableNames ∧
    (path.variableNames = [] ↔ path.hasVariables = false) ∧
    FilledIn globals path (path.resolve globals).path ∧
    ((path.resolve globals).path.resolve globals).path = (path.resolve globals).path ∧
    (∀ other : Globals, (∀ name ∈ path.variableNames, globals.get? name = other.get? name) →
      path.resolve globals = path.resolve other ∧
      path.resolveStrict globals = path.resolveStrict other) ∧
    (path.hasVariables = false → (path.resolve globals).path = path) ∧
    ((path.resolve globals).path.hasVariables = true → ∀ catalog body items,
      (path.resolve globals).path.items? catalog body = some items → items = []) := by
  refine ⟨rfl, variableNames_eq_nil_iff, filledIn_resolve path globals,
    resolve_resolve path globals, fun other same => ?_, fun closed => resolve_of_closed closed _,
    fun isLeft catalog body items evaluated => items_eq_nil_of_hasVariables isLeft evaluated⟩
  exact ⟨resolve_eq_of_same same, resolveStrict_eq_of_same same⟩

/-- An index, a bound and the values of two filters are variables. -/
def variablesPath : Path where
  source := "/a[$i][$j:2]{x==$k}{y==$i}"
  topic := "/a"
  components :=
    [.index (.reference "i" 3), .slice (some (.reference "j" 7)) (some (.literal (.ofInt 2))),
      .filter ⟨["x"], .reference "k" 16, "x==$k", 13, 16⟩,
      .filter ⟨["y"], .reference "i" 23, "y==$i", 20, 23⟩]
  modifier := none

/-- A value that is no integer, and one for a name that no path here has. -/
def truthGlobals : Globals :=
  .ofList [("i", .bool true), ("other", .null)]

/-- Both bounds are open, one filter has its value, and the other one still has its variable. -/
def variablesFilled : Path :=
  { variablesPath with
    components :=
      [.slice (some Globals.firstElement) none,
        .slice (some Globals.firstElement) (some (.literal (.ofInt 2))),
        .filter ⟨["x"], .reference "k" 16, "x==$k", 13, 16⟩,
        .filter ⟨["y"], .literal (.bool true), "y==$i", 20, 23⟩] }

def lastElement : Path :=
  ⟨"/a[-1]", "/a", [.index (.literal (.ofInt (-1)))], none⟩

theorem resolution_reaches_normal_form_variables :
    parse? "/a[$i][$j:2]{x==$k}{y==$i}" = some variablesPath ∧
    (variablesPath.resolve truthGlobals).path = variablesFilled ∧
    (variablesFilled.resolve truthGlobals).path = variablesFilled ∧
    variablesPath.resolve truthGlobals =
      variablesPath.resolve (.ofList [("i", .bool true)]) ∧
    (∀ catalog body items, variablesFilled.items? catalog body = some items → items = []) ∧
    (lastElement.resolve truthGlobals).path = lastElement := by
  have filled : (variablesPath.resolve truthGlobals).path = variablesFilled := rfl
  have named : ∀ name ∈ variablesPath.variableNames,
      truthGlobals.get? name = Dict.get? (.ofList [("i", .bool true)]) name := by
    have names : variablesPath.variableNames = ["i", "j", "k"] := by decide +kernel
    simp only [names, List.forall_mem_cons]
    exact ⟨rfl, rfl, rfl, fun _ member => absurd member List.not_mem_nil⟩
  obtain ⟨_, _, _, again, others, _, nothing⟩ :=
    resolution_reaches_normal_form variablesPath truthGlobals
  rw [filled] at again nothing
  obtain ⟨_, _, _, _, _, closed, _⟩ := resolution_reaches_normal_form lastElement truthGlobals
  exact ⟨rfl, filled, again, (others _ named).1, nothing rfl, closed rfl⟩

end Path

end MessageQuery
