import Mathlib.Data.List.Basic
import MessageQuery.Globals
import MessageQuery.Proofs.Path.Soundness
import MessageQuery.Walk

/-!
# Consecutive filters

Filters one after the other are one filter that asks for all of their conditions. The first of
them may go into an array. What it keeps there has the fields that it names, so it is an object,
and the filters after it can only keep it or drop it. Nothing then depends on the order of the
filters, or on how often one of them is written.
-/

namespace MessageQuery

namespace Path

/-- An operand without the position at which it is written. -/
def Operand.unplaced : Operand → Operand
  | .literal value => .literal value
  | .reference name _ => .reference name 0

/-- What a filter asks for, wherever it is written. -/
def Filter.condition (f : Filter) : List String × Operand :=
  (f.path, f.value.unplaced)

/-- Two paths that differ in one group of adjacent filters, which ask for the same conditions in
another order or another number of times. -/
structure Rearranges (first second : Path) : Prop where
  topic : second.topic = first.topic
  components : ∃ (before : List Component) (filters others : List Filter)
      (after : List Component),
    first.components = before ++ (filters.map Component.filter ++ after) ∧
    second.components = before ++ (others.map Component.filter ++ after) ∧
    (∀ f ∈ filters, f.path ≠ []) ∧
    ∀ condition, condition ∈ filters.map Filter.condition ↔
      condition ∈ others.map Filter.condition

end Path

namespace Walk

variable {catalog : Catalog} {place : Place} {f g : Path.Filter} {filters others : List Path.Filter}

/-- Where a filter looks for what it keeps: at the elements of an array in which it may go, and at
any other value itself. -/
def candidates (catalog : Catalog) (place : Place) : List Place :=
  match place.context, place.value with
  | .array type, .array items =>
      items.map fun item => ⟨item, contextOfType catalog type, place.owner?⟩
  | .untyped, .array items => items.map fun item => ⟨item, .untyped, place.owner?⟩
  | _, _ => [place]

def matchesAll (catalog : Catalog) (filters : List Path.Filter) (place : Place) : Bool :=
  filters.all fun f => matchesFilter catalog f place

theorem filter_eq (catalog : Catalog) (f : Path.Filter) (place : Place) :
    filter catalog f place = (candidates catalog place).filter (matchesFilter catalog f) := by
  obtain ⟨value, context, owner?⟩ := place
  cases context <;> cases value <;> rfl

theorem candidates_of_object {fields : List (String × Value)}
    (isObject : place.value = .object fields) : candidates catalog place = [place] := by
  unfold candidates
  rw [isObject]
  cases place.context <;> rfl

/-- A filter that names a field matches only where there is a part of that name. -/
theorem exists_name?_of_matchesFilter (named : f.path ≠ [])
    (holds : matchesFilter catalog f place = true) :
    ∃ name part, name? catalog name place = some part := by
  unfold matchesFilter at holds
  split at holds
  · next _ found _ isFound =>
      cases isPath : f.path with
      | nil => exact absurd isPath named
      | cons name names =>
          rw [isPath, field?] at isFound
          obtain ⟨part, isPart, _⟩ := Option.bind_eq_some_iff.mp isFound
          exact ⟨name, part, isPart⟩
  · cases holds

/-- A filter that names a field can only match an object. -/
theorem exists_fields_of_matchesFilter (named : f.path ≠ [])
    (holds : matchesFilter catalog f place = true) :
    ∃ fields, place.value = .object fields := by
  obtain ⟨name, next, isNext⟩ := exists_name?_of_matchesFilter named holds
  unfold name? at isNext
  obtain ⟨_, _, reached⟩ := Option.bind_eq_some_iff.mp isNext
  obtain ⟨part, isPart, _⟩ := Option.bind_eq_some_iff.mp reached
  cases isValue : place.value with
  | object fields => exact ⟨fields, rfl⟩
  | _ =>
      rw [isValue] at isPart
      cases isPart

/-! ## Several filters -/

/-- On objects each filter only keeps or drops. -/
theorem steps_filters_of_objects {places : List Place}
    (objects : ∀ place ∈ places, ∃ fields, place.value = .object fields)
    (filters : List Path.Filter) :
    steps catalog (filters.map .filter) places = places.filter (matchesAll catalog filters) := by
  induction filters generalizing places with
  | nil => exact (List.filter_eq_self.mpr fun _ _ => rfl).symm
  | cons f rest ih =>
      have kept : places.flatMap (filter catalog f) = places.filter (matchesFilter catalog f) := by
        conv_rhs => rw [← List.flatMap_singleton' places, List.filter_flatMap]
        apply List.flatMap_congr
        intro place member
        obtain ⟨fields, isObject⟩ := objects place member
        rw [filter_eq, candidates_of_object isObject]
      have remain : ∀ place ∈ places.filter (matchesFilter catalog f),
          ∃ fields, place.value = .object fields :=
        fun place member => objects place (List.mem_filter.mp member).1
      rw [List.map_cons, steps]
      change steps catalog _ (places.flatMap (filter catalog f)) = _
      rw [kept, ih remain, List.filter_filter]
      exact List.filter_congr fun place _ => Bool.and_comm _ _

/-- Consecutive filters keep the candidates that match every one of them. -/
theorem steps_filters (nonempty : filters ≠ []) (named : ∀ f ∈ filters, f.path ≠ [])
    (places : List Place) :
    steps catalog (filters.map .filter) places =
      places.flatMap fun place =>
        (candidates catalog place).filter (matchesAll catalog filters) := by
  cases filters with
  | nil => exact absurd rfl nonempty
  | cons f rest =>
      have objects : ∀ part ∈ places.flatMap (filter catalog f),
          ∃ fields, part.value = .object fields := by
        intro part member
        obtain ⟨place, _, isPart⟩ := List.mem_flatMap.mp member
        rw [filter_eq] at isPart
        exact exists_fields_of_matchesFilter (named f List.mem_cons_self)
          (List.mem_filter.mp isPart).2
      rw [List.map_cons, steps]
      change steps catalog _ (places.flatMap (filter catalog f)) = _
      rw [steps_filters_of_objects objects, List.filter_flatMap]
      apply List.flatMap_congr
      intro place _
      rw [filter_eq, List.filter_filter]
      exact List.filter_congr fun part _ => Bool.and_comm _ _

/-! ## The same conditions -/

theorem matchesFilter_eq_of_condition (same : f.condition = g.condition) :
    matchesFilter catalog f place = matchesFilter catalog g place := by
  obtain ⟨samePath, sameValue⟩ := Prod.mk.inj same
  unfold matchesFilter
  rw [samePath]
  cases first : f.value with
  | literal expected =>
      rw [first] at sameValue
      cases second : g.value with
      | literal other =>
          rw [second] at sameValue
          cases sameValue
          rfl
      | reference name position =>
          rw [second] at sameValue
          cases sameValue
  | reference name position =>
      rw [first] at sameValue
      cases second : g.value with
      | literal other =>
          rw [second] at sameValue
          cases sameValue
      | reference other place => rfl

theorem matchesAll_eq_of_conditions
    (same : ∀ condition, condition ∈ filters.map Path.Filter.condition ↔
      condition ∈ others.map Path.Filter.condition) :
    matchesAll catalog filters = matchesAll catalog others := by
  -- A filter of either group has one of the same condition in the other group.
  have onward : ∀ {first second : List Path.Filter}, (∀ condition,
      condition ∈ second.map Path.Filter.condition →
        condition ∈ first.map Path.Filter.condition) →
      ∀ place, matchesAll catalog first place = true → matchesAll catalog second place = true := by
    intro first second within place holds
    refine List.all_eq_true.mpr fun g member => ?_
    obtain ⟨f, isFirst, sameCondition⟩ := List.mem_map.mp
      (within g.condition (List.mem_map_of_mem member))
    rw [← matchesFilter_eq_of_condition sameCondition]
    exact List.all_eq_true.mp holds f isFirst
  funext place
  exact Bool.eq_iff_iff.mpr ⟨onward (fun condition => (same condition).mpr) place,
    onward (fun condition => (same condition).mp) place⟩

theorem steps_filters_eq_of_conditions (named : ∀ f ∈ filters, f.path ≠ [])
    (same : ∀ condition, condition ∈ filters.map Path.Filter.condition ↔
      condition ∈ others.map Path.Filter.condition) (places : List Place) :
    steps catalog (filters.map .filter) places = steps catalog (others.map .filter) places := by
  have namedOthers : ∀ g ∈ others, g.path ≠ [] := by
    intro g member
    obtain ⟨f, isFirst, sameCondition⟩ := List.mem_map.mp
      ((same g.condition).mpr (List.mem_map_of_mem member))
    rw [← (Prod.mk.inj sameCondition).1]
    exact named f isFirst
  cases filters with
  | nil =>
      cases others with
      | nil => rfl
      | cons g rest => exact absurd ((same g.condition).mpr List.mem_cons_self) List.not_mem_nil
  | cons f rest =>
      have someOther : others ≠ [] := by
        rintro rfl
        exact absurd ((same f.condition).mp List.mem_cons_self) List.not_mem_nil
      rw [steps_filters (List.cons_ne_nil f rest) named, steps_filters someOther namedOthers,
        matchesAll_eq_of_conditions same]

end Walk

namespace Globals

/-- The condition of a resolved filter follows from the condition of the filter. -/
theorem condition_filter (globals : Globals) (f : Path.Filter) :
    (globals.filter f).condition =
      (f.condition.1, (globals.filterValue f.condition.2).unplaced) := by
  unfold filter Path.Filter.condition
  cases f.value with
  | literal value => rfl
  | reference name position =>
      unfold filterValue Path.Operand.unplaced
      dsimp only
      cases globals.get? name <;> rfl

end Globals

namespace Path

variable {first second : Path}

/-- Rearranged filters stay rearranged when their references are resolved. -/
theorem Rearranges.resolve (rearranges : first.Rearranges second) (globals : Globals) :
    (first.resolve globals).path.Rearranges (second.resolve globals).path := by
  obtain ⟨topic, before, filters, others, after, isFirst, isSecond, named, same⟩ := rearranges
  have components : ∀ group : List Filter,
      (before ++ (group.map Component.filter ++ after)).map globals.component =
        before.map globals.component ++
          ((group.map globals.filter).map Component.filter ++ after.map globals.component) := by
    intro group
    simp only [List.map_append, List.map_map]
    rfl
  have conditions : ∀ group : List Filter, (group.map globals.filter).map Filter.condition =
      (group.map Filter.condition).map fun condition =>
        (condition.1, (globals.filterValue condition.2).unplaced) := by
    intro group
    rw [List.map_map, List.map_map]
    exact List.map_congr_left fun f _ => globals.condition_filter f
  refine ⟨topic, before.map globals.component, filters.map globals.filter,
    others.map globals.filter, after.map globals.component, ?_, ?_, ?_, ?_⟩
  · rw [← components, ← isFirst]
    rfl
  · rw [← components, ← isSecond]
    rfl
  · intro f member
    obtain ⟨original, isOriginal, rfl⟩ := List.mem_map.mp member
    exact named original isOriginal
  · intro condition
    simp only [conditions, List.mem_map (l := filters.map _), List.mem_map (l := others.map _),
      same]

theorem Rearranges.items?_eq (rearranges : first.Rearranges second) (catalog : Catalog)
    (body : Value) :
    second.items? catalog body = (first.items? catalog body).map fun items =>
      items.map fun item => { item with path := second.source } := by
  obtain ⟨topic, before, filters, others, after, isFirst, isSecond, named, same⟩ := rearranges
  unfold items?
  rw [topic, Option.map_map]
  apply Option.map_congr
  intro context _
  rw [Function.comp_apply, List.map_map, isFirst, isSecond, Walk.steps_append, Walk.steps_append,
    Walk.steps_append, Walk.steps_append, Walk.steps_filters_eq_of_conditions named same]
  rfl

/-! ## Paths that were read -/

theorem fieldPath_ne_nil {cs : List Char} {names : List String}
    (isPath : Grammar.FieldPath cs names) : names ≠ [] := by
  cases isPath <;> exact List.cons_ne_nil _ _

theorem filter_path_ne_nil_of_components {start : Nat} {cs : List Char}
    {components : List Component} {modifier : Option Modifier}
    (derived : Grammar.Components start cs components modifier) {f : Filter}
    (member : .filter f ∈ components) : f.path ≠ [] := by
  induction derived with
  | nil => cases member
  | json => cases member
  | cons isComponent _ ih =>
      rcases List.mem_cons.mp member with here | later
      · cases isComponent with
        | name => cases here
        | index isBody => cases isBody <;> cases here
        | filter isBody =>
            cases here
            cases isBody with
            | mk _ isPath => exact fieldPath_ne_nil isPath
      · exact ih later

/-- Consecutive filters keep, at each place in turn, the candidates that match every one of them.
So the items of a path stay the same when adjacent filters are permuted, repeated or freed of
repetitions; only the text that the items carry is the other one. The filters of a path that was
read have the fields that this needs. -/
theorem filters_conjoin (catalog : Catalog) :
    (∀ filters : List Filter, filters ≠ [] → (∀ f ∈ filters, f.path ≠ []) →
      ∀ places : List Walk.Place,
        Walk.steps catalog (filters.map .filter) places =
          places.flatMap fun place =>
            (Walk.candidates catalog place).filter fun part =>
              filters.all fun f => Walk.matchesFilter catalog f part) ∧
    (∀ first second : Path, first.Rearranges second → ∀ globals body,
      second.items? catalog body =
        (first.items? catalog body).map (·.map fun item => { item with path := second.source }) ∧
      (second.resolve globals).path.items? catalog body =
        ((first.resolve globals).path.items? catalog body).map
          (·.map fun item => { item with path := second.source })) ∧
    ∀ text path, parse? text = some path → ∀ f, .filter f ∈ path.components → f.path ≠ [] := by
  refine ⟨fun filters nonempty named places => Walk.steps_filters nonempty named places, ?_, ?_⟩
  · intro first second rearranges globals body
    exact ⟨rearranges.items?_eq catalog body, (rearranges.resolve globals).items?_eq catalog body⟩
  · intro text path reads f member
    cases derives_of_parse? reads with
    | mk _ rest => exact filter_path_ne_nil_of_components rest member

def isOne (position : Nat) : Filter :=
  ⟨["x"], .literal (.ofInt 1), "x==1", position, position + 3⟩

def isBound (position : Nat) : Filter :=
  ⟨["y"], .reference "n" (position + 3), "y==$n", position, position + 3⟩

def onceEach : Path :=
  ⟨"/a{x==1}{y==$n}", "/a", [.filter (isOne 3), .filter (isBound 9)], none⟩

/-- The filters in another order, one of them twice. -/
def boundTwice : Path :=
  ⟨"/a{y==$n}{x==1}{y==$n}", "/a",
    [.filter (isBound 3), .filter (isOne 10), .filter (isBound 16)], none⟩

def pairOf (x y : Int) : Value :=
  .object [("x", .ofInt x), ("y", .ofInt y)]

def pairsBody : Value :=
  .array [pairOf 1 2, pairOf 1 3, .array [pairOf 1 2]]

theorem filters_conjoin_pairs :
    parse? "/a{x==1}{y==$n}" = some onceEach ∧
    parse? "/a{y==$n}{x==1}{y==$n}" = some boundTwice ∧
    onceEach.Rearranges boundTwice ∧
    (boundTwice.resolve (.ofList [("n", .ofInt 2)])).path.items?
        (.ofLists [("/a", jsonType)] []) pairsBody =
      some [⟨pairOf 1 2, "/a{y==$n}{x==1}{y==$n}", none⟩] ∧
    Walk.steps .empty [.filter (isOne 3), .filter (isOne 10)] [⟨pairsBody, .untyped, none⟩] =
      [⟨pairOf 1 2, .untyped, none⟩, ⟨pairOf 1 3, .untyped, none⟩] := by
  have reads : parse? "/a{x==1}{y==$n}" = some onceEach := rfl
  obtain ⟨conjoin, rearranged, named⟩ := filters_conjoin (.ofLists [("/a", jsonType)] [])
  have names : ∀ f ∈ [isOne 3, isBound 9], f.path ≠ [] := by
    intro f member
    exact named _ _ reads f (List.mem_map_of_mem member)
  have rearranges : onceEach.Rearranges boundTwice := by
    refine ⟨rfl, [], [isOne 3, isBound 9], [isBound 3, isOne 10, isBound 16], [], rfl, rfl,
      names, ?_⟩
    intro condition
    simp only [isOne, isBound, Filter.condition, Operand.unplaced, List.map_cons, List.map_nil,
      List.mem_cons, List.not_mem_nil, or_false]
    constructor
    · rintro (one | bound)
      · exact .inr (.inl one)
      · exact .inl bound
    · rintro (bound | one | bound)
      · exact .inr bound
      · exact .inl one
      · exact .inr bound
  refine ⟨reads, rfl, rearranges, ?_, ?_⟩
  · rw [(rearranged onceEach boundTwice rearranges _ pairsBody).2]
    rfl
  · have kept := (filters_conjoin .empty).1 [isOne 3, isOne 10] (List.cons_ne_nil _ _)
      (by simp [isOne]) [⟨pairsBody, .untyped, none⟩]
    exact kept.trans rfl

end Path

end MessageQuery
