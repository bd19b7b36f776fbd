import Mathlib.Data.List.Forall2
import MessageQuery.Path.Parser
import MessageQuery.Walk

/-!
# Locations of items

A location leads from a value to something inside it, by the names of fields and the positions of
elements. The items of a path stand at locations of the message body that name exactly the fields
that the path names. They come in document order: where two locations part, they part at elements
of one array, and the earlier item is at the earlier element. So no part of a message is given
twice, and no item is inside another one.
-/

namespace MessageQuery

/-- A move from a value into one of its parts. -/
inductive Move where
  | field (name : String)
  | element (position : Nat)

def Move.name? : Move → Option String
  | .field name => some name
  | .element _ => none

abbrev Location := List Move

namespace Value

def part? : Move → Value → Option Value
  | .field name, value => value.get? name
  | .element position, .array items => items[position]?
  | .element _, _ => none

/-- The value at a location inside a value. -/
def locate? : Location → Value → Option Value
  | [], value => some value
  | move :: rest, value => (value.part? move).bind (locate? rest)

theorem locate?_append {first second : Location} {value middle : Value}
    (found : value.locate? first = some middle) :
    value.locate? (first ++ second) = middle.locate? second := by
  induction first generalizing value with
  | nil =>
      cases found
      rfl
  | cons move rest ih =>
      rw [locate?] at found
      obtain ⟨part, isPart, onward⟩ := Option.bind_eq_some_iff.mp found
      rw [List.cons_append, locate?, isPart]
      exact ih onward

theorem exists_position_of_at? {value found : Value} {offset : Int}
    (isAt : value.at? offset = some found) :
    ∃ position, value.part? (.element position) = some found := by
  cases value with
  | array items =>
      unfold at? elementAt? at isAt
      dsimp only at isAt
      split at isAt
      · cases isAt
      · exact ⟨_, isAt⟩
  | _ => cases isAt

end Value

namespace Location

/-- The names of the fields along a location. -/
def names (location : Location) : List String :=
  location.filterMap Move.name?

/-- Two locations part at elements of one array, and the first goes to the earlier one. -/
inductive Before : Location → Location → Prop where
  | part {i j : Nat} {first second : Location} (less : i < j) :
      Before (.element i :: first) (.element j :: second)
  | along {first second : Location} (move : Move) (later : Before first second) :
      Before (move :: first) (move :: second)

namespace Before

variable {first second : Location}

theorem prepend (common : Location) (before : Before first second) :
    Before (common ++ first) (common ++ second) := by
  induction common with
  | nil => exact before
  | cons move rest ih => exact .along move ih

theorem append (before : Before first second) (after other : Location) :
    Before (first ++ after) (second ++ other) := by
  induction before with
  | part less => exact .part less
  | along move _ ih => exact .along move ih

theorem extend {farFirst farSecond : Location} (before : Before first second)
    (isFirst : first <+: farFirst) (isSecond : second <+: farSecond) :
    Before farFirst farSecond := by
  obtain ⟨after, rfl⟩ := isFirst
  obtain ⟨other, rfl⟩ := isSecond
  exact before.append after other

/-- Neither location leads through the other one. -/
theorem not_prefix (before : Before first second) : ¬first <+: second ∧ ¬second <+: first := by
  induction before with
  | part less =>
      constructor
      · intro inside
        cases (List.cons_prefix_cons.mp inside).1
        exact Nat.lt_irrefl _ less
      · intro inside
        cases (List.cons_prefix_cons.mp inside).1
        exact Nat.lt_irrefl _ less
  | along move _ ih =>
      constructor
      · intro inside
        exact ih.1 (List.cons_prefix_cons.mp inside).2
      · intro inside
        exact ih.2 (List.cons_prefix_cons.mp inside).2

theorem ne (before : Before first second) : first ≠ second := by
  rintro rfl
  exact before.not_prefix.1 List.prefix_rfl

end Before

end Location

/-- The fields that a component names. -/
def Path.Component.names : Path.Component → List String
  | .name field => [field]
  | .index _ | .slice _ _ | .filter _ => []

/-- The fields that a path names, those inside its filters apart. -/
def Path.names (path : Path) : List String :=
  path.components.flatMap Component.names

namespace Walk

/-- Places stand at the given locations of a value, which name the given fields. -/
structure Locates (root : Value) (names : List String) (places : List Place)
    (locations : List Location) : Prop where
  found : List.Forall₂ (fun place location => root.locate? location = some place.value) places
    locations
  named : ∀ location ∈ locations, location.names = names
  ordered : locations.Pairwise Location.Before

namespace Locates

variable {root : Value} {names more : List String} {place : Place} {places : List Place}
  {location : Location} {locations : List Location}

theorem nil (root : Value) (names : List String) : Locates root names [] [] :=
  ⟨.nil, fun _ member => (List.not_mem_nil member).elim, .nil⟩

theorem single (found : root.locate? location = some place.value)
    (named : location.names = names) : Locates root names [place] [location] where
  found := .cons found .nil
  named := by
    intro other member
    rw [List.mem_singleton.mp member]
    exact named
  ordered := List.pairwise_singleton _ _

/-- What stands at locations of a part stands at longer locations of the whole. -/
theorem under {part : Value} {inner : List Location}
    (found : root.locate? location = some part) (locates : Locates part more places inner) :
    Locates root (location.names ++ more) places (inner.map (location ++ ·)) where
  found := by
    rw [List.forall₂_map_right_iff]
    refine locates.found.imp ?_
    intro place further isPlace
    rw [Value.locate?_append found]
    exact isPlace
  named := by
    intro whole member
    obtain ⟨further, isInner, rfl⟩ := List.mem_map.mp member
    unfold Location.names
    rw [List.filterMap_append]
    exact congrArg _ (locates.named further isInner)
  ordered := by
    rw [List.pairwise_map]
    exact locates.ordered.imp (Location.Before.prepend location)

theorem append {later : List Place} {others : List Location}
    (first : Locates root names places locations) (second : Locates root names later others)
    (before : ∀ a ∈ locations, ∀ b ∈ others, Location.Before a b) :
    Locates root names (places ++ later) (locations ++ others) where
  found := List.rel_append first.found second.found
  named := by
    intro location member
    rcases List.mem_append.mp member with early | late
    · exact first.named location early
    · exact second.named location late
  ordered := List.pairwise_append.mpr ⟨first.ordered, second.ordered, before⟩

/-- If each place is replaced by places inside it, these stand at longer locations. -/
theorem exists_flatMap {next : Place → List Place} (locates : Locates root names places locations)
    (inside : ∀ place, ∃ inner, Locates place.value more (next place) inner) :
    ∃ further, Locates root (names ++ more) (places.flatMap next) further ∧
      ∀ far ∈ further, ∃ location ∈ locations, location <+: far := by
  induction places generalizing locations with
  | nil =>
      refine ⟨[], nil root _, ?_⟩
      intro far member
      cases member
  | cons place rest ih =>
      obtain ⟨found, named, ordered⟩ := locates
      cases found with
      | @cons _ location _ others here onward =>
          obtain ⟨isFirst, restOrdered⟩ := List.pairwise_cons.mp ordered
          have rest : Locates root names rest others :=
            ⟨onward, fun other member => named other (List.mem_cons_of_mem _ member), restOrdered⟩
          obtain ⟨further, isFurther, extend⟩ := ih rest
          obtain ⟨inner, isInner⟩ := inside place
          have deeper := isInner.under here
          rw [named location List.mem_cons_self] at deeper
          refine ⟨inner.map (location ++ ·) ++ further, deeper.append isFurther ?_, ?_⟩
          · intro near isNear far isFar
            obtain ⟨tail, _, rfl⟩ := List.mem_map.mp isNear
            obtain ⟨other, isOther, below⟩ := extend far isFar
            exact (isFirst other isOther).extend (List.prefix_append _ _) below
          · intro far member
            rcases List.mem_append.mp member with near | late
            · obtain ⟨tail, _, rfl⟩ := List.mem_map.mp near
              exact ⟨location, List.mem_cons_self, List.prefix_append _ _⟩
            · obtain ⟨other, isOther, below⟩ := extend far late
              exact ⟨other, List.mem_cons_of_mem _ isOther, below⟩

end Locates

/-! ## Components -/

/-- What is left of a list stands at rising positions of it. -/
theorem exists_positions {items kept : List Value} (sublist : kept.Sublist items) :
    ∃ positions : List Nat, positions.Pairwise (· < ·) ∧
      List.Forall₂ (fun item position => items[position]? = some item) kept positions := by
  induction sublist with
  | slnil => exact ⟨[], .nil, .nil⟩
  | @cons kept items skipped _ ih =>
      obtain ⟨positions, rising, found⟩ := ih
      refine ⟨positions.map (· + 1), ?_, ?_⟩
      · rw [List.pairwise_map]
        exact rising.imp Nat.succ_lt_succ
      · rw [List.forall₂_map_right_iff]
        exact found
  | @cons_cons kept items first _ ih =>
      obtain ⟨positions, rising, found⟩ := ih
      refine ⟨0 :: positions.map (· + 1), ?_, ?_⟩
      · rw [List.pairwise_cons, List.pairwise_map]
        refine ⟨?_, rising.imp Nat.succ_lt_succ⟩
        intro position member
        obtain ⟨before, _, rfl⟩ := List.mem_map.mp member
        exact Nat.succ_pos before
      · refine .cons rfl ?_
        rw [List.forall₂_map_right_iff]
        exact found

/-- Elements of an array that are kept in order stand at their positions. -/
theorem exists_locates_elements {items kept : List Value} (sublist : kept.Sublist items)
    {element : Value → Place} (isElement : ∀ item, (element item).value = item) :
    ∃ inner, Locates (.array items) [] (kept.map element) inner := by
  obtain ⟨positions, rising, found⟩ := exists_positions sublist
  refine ⟨positions.map fun position => [.element position], ?_, ?_, ?_⟩
  · rw [List.forall₂_map_left_iff, List.forall₂_map_right_iff]
    refine found.imp ?_
    intro item position isItem
    rw [isElement]
    exact Option.bind_eq_some_iff.mpr ⟨item, isItem, rfl⟩
  · intro location member
    obtain ⟨position, _, rfl⟩ := List.mem_map.mp member
    rfl
  · rw [List.pairwise_map]
    exact rising.imp fun less => .part less

theorem sliceItems_sublist (items : List Value) (start stop : Int) :
    (sliceItems items start stop).Sublist items := by
  unfold sliceItems
  dsimp only
  split
  · exact (List.drop_sublist _ _).trans (List.take_sublist _ _)
  · exact List.nil_sublist items

variable {catalog : Catalog} {place : Place}

theorem exists_locates_name (name : String) :
    ∃ inner, Locates place.value [name] (name? catalog name place).toList inner := by
  cases isNext : name? catalog name place with
  | none => exact ⟨[], .nil _ _⟩
  | some next =>
      unfold name? at isNext
      obtain ⟨⟨context, owner?⟩, _, reached⟩ := Option.bind_eq_some_iff.mp isNext
      obtain ⟨part, isPart, same⟩ := Option.bind_eq_some_iff.mp reached
      cases same
      have found : place.value.locate? [.field name] = some part :=
        Option.bind_eq_some_iff.mpr ⟨part, isPart, rfl⟩
      exact ⟨[[.field name]], .single found rfl⟩

theorem exists_locates_index (operand : Path.Operand) :
    ∃ inner, Locates place.value [] (index? catalog operand place).toList inner := by
  cases isNext : index? catalog operand place with
  | none => exact ⟨[], .nil _ _⟩
  | some next =>
      unfold index? at isNext
      obtain ⟨context, _, reached⟩ := Option.bind_eq_some_iff.mp isNext
      obtain ⟨offset, _, within⟩ := Option.bind_eq_some_iff.mp reached
      obtain ⟨part, isPart, same⟩ := Option.bind_eq_some_iff.mp within
      cases same
      obtain ⟨position, isPosition⟩ := Value.exists_position_of_at? isPart
      have found : place.value.locate? [.element position] = some part :=
        Option.bind_eq_some_iff.mpr ⟨part, isPosition, rfl⟩
      exact ⟨[[.element position]], .single found rfl⟩

theorem exists_locates_slice (start stop : Option Path.Operand) :
    ∃ inner, Locates place.value [] (slice catalog start stop place) inner := by
  unfold slice
  split
  · next context items first last _ isArray _ _ =>
      have isItems : place.value = .array items := by
        cases same : place.value with
        | array others =>
            rw [same] at isArray
            cases isArray
            rfl
        | _ =>
            rw [same] at isArray
            cases isArray
      rw [isItems]
      exact exists_locates_elements (sliceItems_sublist items first last) fun _ => rfl
  · exact ⟨[], .nil _ _⟩

theorem exists_locates_filter (f : Path.Filter) :
    ∃ inner, Locates place.value [] (filter catalog f place) inner := by
  unfold filter
  split
  · next context items _ isArray =>
      rw [isArray, List.filter_map]
      exact exists_locates_elements List.filter_sublist fun _ => rfl
  · cases holds : matchesFilter catalog f place with
    | true =>
        rw [List.filter_singleton, holds]
        exact ⟨[[]], .single rfl rfl⟩
    | false =>
        rw [List.filter_singleton, holds]
        exact ⟨[], .nil _ _⟩

/-- One component leads to places inside the one where it starts. -/
theorem exists_locates_step (catalog : Catalog) (component : Path.Component) (place : Place) :
    ∃ inner, Locates place.value component.names (step catalog component place) inner := by
  cases component with
  | name name => exact exists_locates_name name
  | index operand => exact exists_locates_index operand
  | slice start stop => exact exists_locates_slice start stop
  | filter f => exact exists_locates_filter f

/-! ## Whole paths -/

theorem exists_locates_steps {root : Value} {names : List String} {places : List Place}
    {locations : List Location} (catalog : Catalog) (components : List Path.Component)
    (locates : Locates root names places locations) :
    ∃ further, Locates root (names ++ components.flatMap Path.Component.names)
      (steps catalog components places) further := by
  induction components generalizing names places locations with
  | nil =>
      rw [List.flatMap_nil, List.append_nil]
      exact ⟨locations, locates⟩
  | cons component rest ih =>
      obtain ⟨further, isFurther, _⟩ :=
        locates.exists_flatMap (exists_locates_step catalog component)
      rw [List.flatMap_cons, ← List.append_assoc]
      exact ih isFurther

end Walk

namespace Path

/-- The items of a path stand at locations of the body, one for each item. The locations name the
fields that the path names; none of them is, or leads through, another one; and they come in
document order. -/
theorem exists_locations_of_items? {path : Path} {catalog : Catalog} {body : Value}
    {items : List Item} (evaluated : path.items? catalog body = some items) :
    ∃ locations : List Location,
      List.Forall₂ (fun item location => body.locate? location = some item.value) items
        locations ∧
      (∀ location ∈ locations, location.names = path.names) ∧
      locations.Pairwise fun first second =>
        Location.Before first second ∧ first ≠ second ∧ ¬first <+: second ∧ ¬second <+: first := by
  unfold items? at evaluated
  obtain ⟨context, _, rfl⟩ := Option.map_eq_some_iff.mp evaluated
  have start : Walk.Locates body [] [⟨body, context, none⟩] [[]] := .single rfl rfl
  obtain ⟨locations, found, named, ordered⟩ :=
    Walk.exists_locates_steps catalog path.components start
  refine ⟨locations, ?_, named, ?_⟩
  · rw [List.forall₂_map_left_iff]
    exact found
  · refine ordered.imp ?_
    intro first second before
    exact ⟨before, before.ne, before.not_prefix⟩

/-- A path whose filter meets an object and an array. -/
def nestedPath : Path where
  source := "/a.b[:]{c==1}.c"
  topic := "/a"
  components :=
    [.name "b", .slice none none, .filter ⟨["c"], .literal (.ofInt 1), "c==1", 8, 11⟩, .name "c"]
  modifier := none

def nestedBody : Value :=
  .object [("b", .array
    [.object [("c", .ofInt 1)], .array [.object [("c", .ofInt 2)], .object [("c", .ofInt 1)]]])]

theorem exists_locations_of_items?_nested :
    parse? "/a.b[:]{c==1}.c" = some nestedPath ∧
    ∃ items, nestedPath.items? (.ofLists [("/a", jsonType)] []) nestedBody = some items ∧
      items.map Item.value = [.ofInt 1, .ofInt 1] ∧
      ∃ locations : List Location,
        List.Forall₂ (fun item location => nestedBody.locate? location = some item.value) items
          locations ∧
        (∀ location ∈ locations, location.names = ["b", "c"]) ∧
        locations.Pairwise fun first second =>
          Location.Before first second ∧ first ≠ second ∧ ¬first <+: second ∧
            ¬second <+: first := by
  have evaluated : nestedPath.items? (.ofLists [("/a", jsonType)] []) nestedBody = some _ := rfl
  exact ⟨rfl, _, evaluated, rfl, exists_locations_of_items? evaluated⟩

end Path

end MessageQuery
