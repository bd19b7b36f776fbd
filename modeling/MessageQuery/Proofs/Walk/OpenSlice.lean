import MessageQuery.Proofs.Walk.Conjunction

/-!
# Filters on arrays

A filter on an array goes into the array by itself, so the slice of all elements in front of it
changes nothing, as long as no element is an array again. A schema has no part in this. Where it
lets a filter go into an array it lets a slice do so too, and gives the elements the same context.
Where it does not, the slice leads nowhere, and the filter finds no field in the array and drops it.
-/

namespace MessageQuery

namespace Value

def IsArray (value : Value) : Prop :=
  ∃ items, value = .array items

/-- An array of which no element is an array. -/
def IsFlatArray (value : Value) : Prop :=
  ∃ items, value = .array items ∧ ∀ item ∈ items, ¬item.IsArray

end Value

namespace Path

/-- A component without what depends on where it is written. -/
def Component.unplaced : Component → Component
  | .name field => .name field
  | .index operand => .index operand.unplaced
  | .slice start stop => .slice (start.map Operand.unplaced) (stop.map Operand.unplaced)
  | .filter f => .filter ⟨f.path, f.value.unplaced, "", 0, 0⟩

/-- The second path has the slice of all elements in front of a filter of the first one, which
stands behind the given components. In its text all that follows has moved. -/
structure OpensFilter (first second : Path) (earlier : List Component) : Prop where
  topic : second.topic = first.topic
  components : ∃ (f : Filter) (later others : List Component),
    first.components = earlier ++ .filter f :: later ∧
    second.components = earlier ++ .slice none none :: others ∧
    others.map Component.unplaced = (Component.filter f :: later).map Component.unplaced

end Path

namespace Walk

variable {catalog : Catalog} {place : Place} {f : Path.Filter} {items : List Value}

/-! ## Where components are written -/

theorem literalOffset?_unplaced (operand : Path.Operand) :
    literalOffset? operand.unplaced = literalOffset? operand := by
  cases operand with
  | literal value => rw [Path.Operand.unplaced]
  | reference name position => simp only [Path.Operand.unplaced, literalOffset?]

theorem boundOffset?_unplaced (default : Int) (bound? : Option Path.Operand) :
    boundOffset? default (bound?.map Path.Operand.unplaced) = boundOffset? default bound? := by
  cases bound? with
  | none => rw [Option.map_none]
  | some operand => simp only [Option.map_some, boundOffset?, literalOffset?_unplaced]

/-- A step takes no notice of where its component is written. -/
theorem step_unplaced (component : Path.Component) :
    step catalog component.unplaced = step catalog component := by
  funext place
  cases component with
  | name name => rw [Path.Component.unplaced]
  | index operand =>
      simp only [Path.Component.unplaced, step, index?, literalOffset?_unplaced]
  | slice start stop =>
      simp only [Path.Component.unplaced, step, slice, boundOffset?_unplaced]
  | filter f =>
      have same : matchesFilter catalog ⟨f.path, f.value.unplaced, "", 0, 0⟩ =
          matchesFilter catalog f := by
        funext part
        apply matchesFilter_eq_of_condition
        cases isValue : f.value <;> simp only [Path.Filter.condition, Path.Operand.unplaced, isValue]
      simp only [Path.Component.unplaced, step, filter, same]

theorem steps_map_unplaced (components : List Path.Component) (places : List Place) :
    steps catalog (components.map Path.Component.unplaced) places =
      steps catalog components places := by
  induction components generalizing places with
  | nil => rw [List.map_nil]
  | cons component rest ih => rw [List.map_cons, steps, steps, step_unplaced, ih]

/-! ## Arrays -/

theorem sliceItems_all (items : List Value) : sliceItems items 0 (-1) = items := by
  have first : max 0 (Value.fromEnd items.length 0) = 0 := by simp [Value.fromEnd]
  have last : min (Value.fromEnd items.length (-1)) (items.length - 1) = items.length - 1 := by
    simp [Value.fromEnd, Int.sub_eq_add_neg]
  simp only [sliceItems, first, last]
  cases items with
  | nil => simp
  | cons item rest => simp

/-- The slice of all elements leads to every element of an array that it may go into. -/
theorem slice_all (isArray : place.value = .array items) :
    slice catalog none none place =
      match elementContext? catalog place.context with
      | some context => items.map fun item => ⟨item, context, place.owner?⟩
      | none => [] := by
  simp only [slice, boundOffset?, isArray, Value.asArray?]
  cases elementContext? catalog place.context with
  | none => simp only
  | some context => simp only [sliceItems_all]

/-- No array matches a filter: it has no fields, and it equals no literal. -/
theorem matchesFilter_of_array (isArray : place.value = .array items) :
    matchesFilter catalog f place = false := by
  apply Bool.eq_false_iff.mpr
  intro holds
  by_cases named : f.path = []
  · rw [matchesFilter, named, field?] at holds
    cases isValue : f.value with
    | literal expected => simp [isValue, isArray, matchesLiteral] at holds
    | reference name position => simp [isValue] at holds
  · obtain ⟨fields, isObject⟩ := exists_fields_of_matchesFilter named holds
    cases isArray.symm.trans isObject

/-- A filter keeps or drops what is no array, whatever the context. -/
theorem filter_of_not_array (noArray : ¬place.value.IsArray) :
    filter catalog f place = [place].filter (matchesFilter catalog f) := by
  rw [filter_eq]
  congr 1
  cases isValue : place.value with
  | array items => exact absurd ⟨items, isValue⟩ noArray
  | _ =>
      simp only [candidates, isValue]
      cases place.context <;> rfl

/-- Filtering the elements of a flat array one by one is filtering the array. -/
theorem flatMap_filter_slice (flat : place.value.IsFlatArray) :
    (slice catalog none none place).flatMap (filter catalog f) = filter catalog f place := by
  obtain ⟨items, isArray, noArrays⟩ := flat
  rw [slice_all isArray, filter, isArray]
  cases elementContext? catalog place.context with
  | none =>
      have dropped := @matchesFilter_of_array catalog place f items isArray
      simp [dropped]
  | some context =>
      dsimp only
      conv_rhs => rw [← List.flatMap_singleton' (items.map _), List.filter_flatMap]
      apply List.flatMap_congr
      intro element member
      obtain ⟨item, isItem, rfl⟩ := List.mem_map.mp member
      exact filter_of_not_array (noArrays item isItem)

theorem steps_slice_filter {places : List Place} (flat : ∀ place ∈ places, place.value.IsFlatArray)
    {later others : List Path.Component}
    (same : others.map Path.Component.unplaced =
      (Path.Component.filter f :: later).map Path.Component.unplaced) :
    steps catalog (.slice none none :: others) places =
      steps catalog (.filter f :: later) places := by
  have opened : (places.flatMap (step catalog (.slice none none))).flatMap
      (step catalog (.filter f)) = places.flatMap (step catalog (.filter f)) := by
    rw [List.flatMap_assoc]
    apply List.flatMap_congr
    intro place member
    exact flatMap_filter_slice (flat place member)
  rw [steps, ← steps_map_unplaced others, same, steps_map_unplaced, steps, steps, opened]

end Walk

namespace Path

/-- If all that the components before a filter lead to are flat arrays, the path has the same items
with the slice of all elements in front of the filter as without it: the same values with the same
constant names, in the same order, or none at all for an unknown topic. Only the text that the
items carry is the other one. -/
theorem items?_of_opensFilter {first second : Path} {earlier : List Component}
    (opens : first.OpensFilter second earlier) {catalog : Catalog} {body : Value}
    (flat : ∀ items, { first with components := earlier }.items? catalog body = some items →
      ∀ item ∈ items, item.value.IsFlatArray) :
    second.items? catalog body =
      (first.items? catalog body).map (·.map fun item => { item with path := second.source }) := by
  obtain ⟨topic, f, later, others, isFirst, isSecond, same⟩ := opens
  simp only [items?] at flat ⊢
  rw [topic, Option.map_map]
  apply Option.map_congr
  intro context isRoot
  have places : ∀ place ∈ Walk.steps catalog earlier [⟨body, context, none⟩],
      place.value.IsFlatArray := by
    intro place member
    exact flat _ (by rw [isRoot, Option.map_some]) _ (List.mem_map_of_mem member)
  rw [Function.comp_apply, List.map_map, isFirst, isSecond, Walk.steps_append, Walk.steps_append,
    Walk.steps_slice_filter places same]
  rfl

/-- The filter with its brace at the given position. -/
def stateFilter (position : Nat) : Component :=
  .filter ⟨["state"], .literal (.ofInt 1), "state==1", position + 1, position + 8⟩

def barePath (field : String) : Path where
  source := "/a." ++ field ++ "\x7bstate==1\x7d.state"
  topic := "/a"
  components := [.name field, stateFilter 7, .name "state"]
  modifier := none

def openedPath (field : String) : Path where
  source := "/a." ++ field ++ "[:]\x7bstate==1\x7d.state"
  topic := "/a"
  components := [.name field, .slice none none, stateFilter 10, .name "state"]
  modifier := none

theorem opensFilter_openedPath (field : String) :
    (barePath field).OpensFilter (openedPath field) [.name field] where
  topic := rfl
  components := ⟨_, _, _, rfl, rfl, rfl⟩

def stateOf (state : Int) : Value :=
  .object [("state", .ofInt state)]

/-- In an array of arrays the slice lets the filter go one level deeper. -/
example :
    (barePath "part").items? (.ofLists [("/a", jsonType)] [])
        (.object [("part", .array [.array [stateOf 1]])]) = some [] ∧
    (openedPath "part").items? (.ofLists [("/a", jsonType)] [])
        (.object [("part", .array [.array [stateOf 1]])]) =
      some [⟨.ofInt 1, (openedPath "part").source, none⟩] :=
  ⟨rfl, rfl⟩

/-- A machine has parts, and a mode that is declared as a single number. -/
def machineCatalog : Catalog :=
  .ofLists [("/a", "Machine")]
    [("Machine", ⟨[.array "part" "Part", ⟨"mode", "uint8", false, false, none⟩]⟩),
      ("Part", ⟨[⟨"state", "uint8", false, false, none⟩, .constant "ON" "uint8" (.ofInt 1)]⟩)]

/-- The mode is an array against its declaration. -/
def machineBody : Value :=
  .object [("mode", .array [stateOf 1]), ("part", .array [stateOf 0, stateOf 1, .null])]

theorem items?_of_opensFilter_machine :
    parse? (barePath "part").source = some (barePath "part") ∧
    parse? (openedPath "part").source = some (openedPath "part") ∧
    (openedPath "part").items? machineCatalog machineBody =
      some [⟨.ofInt 1, (openedPath "part").source, some "ON"⟩] ∧
    (openedPath "mode").items? machineCatalog machineBody = some [] := by
  have noArray : ∀ state, ¬(stateOf state).IsArray := by
    rintro state ⟨_, same⟩
    cases same
  refine ⟨rfl, rfl, ?_, ?_⟩
  · refine (items?_of_opensFilter (opensFilter_openedPath "part") ?_).trans rfl
    rintro _ ⟨⟩ item member
    rw [List.mem_singleton.mp member]
    refine ⟨_, rfl, List.forall_mem_cons.mpr ⟨noArray 0, List.forall_mem_cons.mpr
      ⟨noArray 1, List.forall_mem_singleton.mpr ?_⟩⟩⟩
    rintro ⟨_, same⟩
    cases same
  · refine (items?_of_opensFilter (opensFilter_openedPath "mode") ?_).trans rfl
    rintro _ ⟨⟩ item member
    rw [List.mem_singleton.mp member]
    exact ⟨_, rfl, List.forall_mem_singleton.mpr (noArray 1)⟩

end Path

end MessageQuery
