import Mathlib.Data.List.Forall2
import MessageQuery.Proofs.Strictness
import MessageQuery.Walk

/-!
# Indices as slices

An index and the slice from its operand to itself are computed in different ways: the one looks for
an element, the other cuts off what lies outside. They take the same, for every offset and every
array, and for operands that are no offsets they take nothing. They are resolved in different ways
too, and fall back to the same slice. So it cannot be observed which of the two a path is written
with, except in its text.
-/

namespace MessageQuery

namespace Path

/-- The second component is the first one, or takes the slice from the operand to itself where the
first one has an index. -/
inductive Component.Spans : Component → Component → Prop where
  | same (component : Component) : Spans component component
  | index (operand : Operand) : Spans (.index operand) (.slice (some operand) (some operand))

/-- The second path is the first one with some of its indices, or all, written as slices. They go
by the same text. -/
structure SpansIndices (first second : Path) : Prop where
  source : second.source = first.source
  topic : second.topic = first.topic
  modifier : second.modifier = first.modifier
  components : List.Forall₂ Component.Spans first.components second.components

end Path

/-! ## Walking -/

namespace Walk

open Path (Component)

/-- The slice from an offset to itself is the element there. -/
theorem sliceItems_self (items : List Value) (offset : Int) :
    sliceItems items offset offset = (Value.elementAt? items offset).toList := by
  simp only [sliceItems, Value.elementAt?]
  generalize Value.fromEnd items.length offset = place
  by_cases before : place < 0
  · have crossed : ¬max 0 place ≤ min place (items.length - 1) := by omega
    rw [if_neg crossed, if_pos before, Option.toList_none]
  · by_cases inside : place < items.length
    · have ordered : max 0 place ≤ min place (items.length - 1) := by omega
      have first : (max 0 place).toNat = place.toNat := by omega
      have last : (min place (items.length - 1)).toNat = place.toNat := by omega
      have taken : (items.take place.toNat).length = place.toNat := by
        rw [List.length_take]
        omega
      rw [if_pos ordered, if_neg before, first, last, List.take_add_one, List.drop_left' taken]
    · have crossed : ¬max 0 place ≤ min place (items.length - 1) := by omega
      rw [if_neg crossed, if_neg before, List.getElem?_eq_none (by omega), Option.toList_none]

variable {catalog : Catalog} {component other : Component}
  {components others : List Component}

theorem slice_self (catalog : Catalog) (operand : Path.Operand) (place : Place) :
    slice catalog (some operand) (some operand) place = (index? catalog operand place).toList := by
  simp only [slice, index?, boundOffset?]
  cases elementContext? catalog place.context with
  | none => rfl
  | some context =>
      cases literalOffset? operand with
      | none => cases place.value.asArray? <;> rfl
      | some offset =>
          cases place.value with
          | array items =>
              simp only [Value.asArray?, Value.at?, sliceItems_self]
              cases found : Value.elementAt? items offset <;> simp [found]
          | _ => rfl

theorem step_eq_of_spans (spans : component.Spans other) (place : Place) :
    step catalog other place = step catalog component place := by
  cases spans with
  | same => rfl
  | index operand => exact slice_self catalog operand place

theorem steps_eq_of_spans (spans : List.Forall₂ Component.Spans components others)
    (places : List Place) : steps catalog others places = steps catalog components places := by
  induction spans generalizing places with
  | nil => rfl
  | cons here _ ih =>
      rw [steps, steps, funext (step_eq_of_spans here)]
      exact ih _

end Walk

/-! ## Resolving -/

namespace Globals

open Path (Component)

variable {component other : Component}

/-- An index and its slice resolve to an index and its slice, or fall back to the same slice. -/
theorem component_spans (globals : Globals) (spans : component.Spans other) :
    (globals.component component).Spans (globals.component other) := by
  cases spans with
  | same => exact .same _
  | index operand =>
      simp only [Globals.component, Option.map_some, Option.bind_some, start, stop?]
      cases globals.offset operand with
      | ok bound => exact .index bound
      | error name => exact .same _

/-- The variable of an index stands twice in its slice. -/
theorem failure?_strictComponent_eq_of_spans (globals : Globals) (spans : component.Spans other) :
    failure? (globals.strictComponent other) = failure? (globals.strictComponent component) := by
  cases spans with
  | same => rfl
  | index operand =>
      rw [failure?_strictComponent, failure?_strictComponent]
      simp only [Component.bounds, Option.toList_some, List.cons_append, List.nil_append]
      cases operand with
      | literal value => rfl
      | reference name position =>
          simp only [List.filterMap_cons, List.filterMap_nil, Path.Operand.variable?,
            List.find?_cons, List.find?_nil]
          cases globals.lacksOffset name <;> rfl

end Globals

namespace Path

/-- What can be observed of a resolved path: the variables that were read, and its items in a
message body. -/
def Resolved.answer (catalog : Catalog) (body : Value) (resolved : Resolved) :
    List String × Option (List Item) :=
  (resolved.read, resolved.path.items? catalog body)

theorem Component.Spans.mem_operands_iff {component other : Component}
    (spans : component.Spans other) {operand : Operand} :
    operand ∈ other.operands ↔ operand ∈ component.operands := by
  cases spans with
  | same => exact Iff.rfl
  | index bound => simp [Component.operands]

namespace SpansIndices

variable {first second : Path}

theorem resolve (spans : first.SpansIndices second) (globals : Globals) :
    (first.resolve globals).path.SpansIndices (second.resolve globals).path where
  source := spans.source
  topic := spans.topic
  modifier := spans.modifier
  components := by
    rw [Path.resolve, Path.resolve, List.forall₂_map_left_iff, List.forall₂_map_right_iff]
    exact spans.components.imp fun _ _ here => globals.component_spans here

theorem mem_operands_iff (spans : first.SpansIndices second) {operand : Operand} :
    operand ∈ second.operands ↔ operand ∈ first.operands := by
  have components := spans.components
  simp only [operands]
  generalize first.components = components₁ at components
  generalize second.components = components₂ at components
  induction components with
  | nil => exact Iff.rfl
  | cons here _ ih =>
      rw [List.flatMap_cons, List.flatMap_cons, List.mem_append, List.mem_append]
      exact or_congr here.mem_operands_iff ih

theorem variableNames_eq (spans : first.SpansIndices second) :
    second.variableNames = first.variableNames := by
  apply sortedNames_eq_of_mem_iff
  intro name
  simp only [List.mem_filterMap, spans.mem_operands_iff]

theorem items?_eq (spans : first.SpansIndices second) (catalog : Catalog) (body : Value) :
    second.items? catalog body = first.items? catalog body := by
  simp only [items?, spans.source, spans.topic, Walk.steps_eq_of_spans spans.components]

theorem answer_resolve_eq (spans : first.SpansIndices second) (globals : Globals)
    (catalog : Catalog) (body : Value) :
    (second.resolve globals).answer catalog body = (first.resolve globals).answer catalog body := by
  rw [Resolved.answer, Resolved.answer, (spans.resolve globals).items?_eq]
  exact congrArg (·, _) spans.variableNames_eq

theorem failure?_resolveStrict_eq (spans : first.SpansIndices second) (globals : Globals) :
    failure? (second.resolveStrict globals) = failure? (first.resolveStrict globals) := by
  have components := spans.components
  rw [failure?_resolveStrict, failure?_resolveStrict, spans.source]
  congr 1
  generalize first.components = components₁ at components
  generalize second.components = components₂ at components
  induction components with
  | nil => rfl
  | cons here _ ih =>
      rw [List.findSome?_cons, List.findSome?_cons,
        globals.failure?_strictComponent_eq_of_spans here, ih]

end SpansIndices

/-- A path whose indices are written as slices has the same items as it is, and the same answers
after a lenient and after a strict resolution, which fail for both or for neither, and with one
error. This holds for any operands: integers of any size, other literals, and variables whether or
not they have an integer. -/
theorem answers_eq_of_spansIndices {first second : Path} (spans : first.SpansIndices second)
    (catalog : Catalog) (globals : Globals) (body : Value) :
    second.items? catalog body = first.items? catalog body ∧
    (second.resolve globals).answer catalog body = (first.resolve globals).answer catalog body ∧
    (second.resolveStrict globals).map (Resolved.answer catalog body) =
      (first.resolveStrict globals).map (Resolved.answer catalog body) := by
  have lenient := spans.answer_resolve_eq globals catalog body
  refine ⟨spans.items?_eq catalog body, lenient, ?_⟩
  rw [resolveStrict_eq second, resolveStrict_eq first, spans.failure?_resolveStrict_eq globals]
  cases failure? (first.resolveStrict globals) with
  | none => exact congrArg Except.ok lenient
  | some error => rfl

/-- An index that is written, and one by a variable. -/
def indexedPath : Path where
  source := "/a[0][$n]"
  topic := "/a"
  components := [.index (.literal (.ofInt 0)), .index (.reference "n" 6)]
  modifier := none

/-- The same path with its last index as a slice. -/
def slicedPath : Path :=
  { indexedPath with
    components :=
      [.index (.literal (.ofInt 0)), .slice (some (.reference "n" 6)) (some (.reference "n" 6))] }

def nestedItems : Value :=
  .array [.array [.ofInt 7, .ofInt 8]]

/-- With an integer both take one element, and without one all of them, unless that is an error. -/
theorem answers_eq_of_spansIndices_nested :
    parse? "/a[0][$n]" = some indexedPath ∧
    indexedPath.SpansIndices slicedPath ∧
    (slicedPath.resolve (.ofList [("n", .ofInt (-1))])).answer
        (.ofLists [("/a", jsonType)] []) nestedItems =
      (["n"], some [⟨.ofInt 8, "/a[0][$n]", none⟩]) ∧
    (slicedPath.resolve .empty).answer (.ofLists [("/a", jsonType)] []) nestedItems =
      (["n"], some [⟨.ofInt 7, "/a[0][$n]", none⟩, ⟨.ofInt 8, "/a[0][$n]", none⟩]) ∧
    (slicedPath.resolveStrict .empty).map
        (Resolved.answer (.ofLists [("/a", jsonType)] []) nestedItems) =
      .error (.nonNumericSliceBound "n" "/a[0][$n]") := by
  have spans : indexedPath.SpansIndices slicedPath :=
    ⟨rfl, rfl, rfl, .cons (.same _) (.cons (.index _) .nil)⟩
  have answers := answers_eq_of_spansIndices spans (.ofLists [("/a", jsonType)] [])
  refine ⟨rfl, spans, ?_, ?_, ?_⟩
  · exact (answers (.ofList [("n", .ofInt (-1))]) nestedItems).2.1.trans rfl
  · exact (answers .empty nestedItems).2.1.trans rfl
  · exact (answers .empty nestedItems).2.2.trans rfl

end Path

end MessageQuery
