import MessageQuery.Proofs.Resolution

/-!
# Bounds that are integers

Index and slice bounds need integers. A variable gives one if its value is a number without a
fraction, of any form, or a text that spells such a number. A strict resolution succeeds exactly
if every variable among the bounds of the path does, and otherwise fails at the first that does
not; the variables of filters do not matter.
-/

namespace MessageQuery

/-- The first item of a list for which something holds. -/
def IsFirst {α : Type} (holds : α → Prop) (items : List α) (item : α) : Prop :=
  holds item ∧ ∃ before after, items = before ++ item :: after ∧ ∀ other ∈ before, ¬holds other

namespace IsFirst

variable {α : Type} {holds other : α → Prop} {items : List α} {item front : α}

theorem head (here : holds front) : IsFirst holds (front :: items) front :=
  ⟨here, [], items, rfl, fun _ member => absurd member List.not_mem_nil⟩

theorem cons (notHere : ¬holds front) (isFirst : IsFirst holds items item) :
    IsFirst holds (front :: items) item := by
  obtain ⟨here, before, after, rfl, earlier⟩ := isFirst
  refine ⟨here, front :: before, after, rfl, fun second member => ?_⟩
  rcases List.mem_cons.mp member with rfl | inBefore
  · exact notHere
  · exact earlier second inBefore

theorem mem (isFirst : IsFirst holds items item) : item ∈ items := by
  obtain ⟨_, before, after, rfl, _⟩ := isFirst
  exact List.mem_append_right _ List.mem_cons_self

theorem congr (same : ∀ item ∈ items, holds item ↔ other item)
    (isFirst : IsFirst holds items item) : IsFirst other items item := by
  obtain ⟨here, before, after, rfl, earlier⟩ := isFirst
  refine ⟨(same item (List.mem_append_right _ List.mem_cons_self)).mp here, before, after, rfl, ?_⟩
  intro second member holdsThere
  exact earlier second member ((same second (List.mem_append_left _ member)).mpr holdsThere)

end IsFirst

theorem find?_eq_some_iff_isFirst {α : Type} {test : α → Bool} {holds : α → Prop}
    (tests : ∀ item, test item = true ↔ holds item) {items : List α} {item : α} :
    items.find? test = some item ↔ IsFirst holds items item := by
  rw [List.find?_eq_some_iff_append]
  simp only [IsFirst, tests, Bool.not_eq_true', ← Bool.not_eq_true]

theorem exists_isFirst_iff {α : Type} {holds : α → Prop} {items : List α} :
    (∃ item, IsFirst holds items item) ↔ ∃ item ∈ items, holds item := by
  classical
  have tests : ∀ item, decide (holds item) = true ↔ holds item := fun _ => decide_eq_true_iff
  simp only [← find?_eq_some_iff_isFirst tests, ← Option.isSome_iff_exists, List.find?_isSome,
    tests]

namespace Value

/-- The integers for which values stand as offsets: those that are numbers of any form, and those
that are spelled by a text. -/
inductive Denotes : Value → Int → Prop where
  | number {n : Number} {a : Int} (whole : n.toInt? = some a) : Denotes (.number n) a
  | text {s : String} {n : Number} {a : Int} (spells : Number.parse? s.toList = some n)
      (whole : n.toInt? = some a) : Denotes (.string s) a

/-- The signed 64-bit word that is nearest to an integer. -/
def saturated (a : Int) : Int :=
  max (-0x8000000000000000) (min a 0x7FFFFFFFFFFFFFFF)

theorem asOffset?_of_toInt? {n : Number} {a : Int} (whole : n.toInt? = some a) :
    n.asOffset? = some (saturated a) := by
  unfold Number.asOffset?
  rw [whole]
  rfl

theorem Denotes.asOffset?_eq {value : Value} {a : Int} (denotes : value.Denotes a) :
    value.asOffset? = some (saturated a) := by
  cases denotes with
  | number whole => exact asOffset?_of_toInt? whole
  | text spells whole =>
      unfold asOffset?
      dsimp only
      rw [spells]
      exact asOffset?_of_toInt? whole

theorem exists_denotes_iff {value : Value} :
    (∃ a, value.Denotes a) ↔ value.asOffset?.isSome = true := by
  constructor
  · rintro ⟨a, denotes⟩
    rw [denotes.asOffset?_eq]
    rfl
  · intro isSome
    obtain ⟨offset, found⟩ := Option.isSome_iff_exists.mp isSome
    cases value with
    | number n =>
        obtain ⟨a, whole, _⟩ := Option.map_eq_some_iff.mp found
        exact ⟨a, .number whole⟩
    | string s =>
        obtain ⟨n, spells, isOffset⟩ := Option.bind_eq_some_iff.mp found
        obtain ⟨a, whole, _⟩ := Option.map_eq_some_iff.mp isOffset
        exact ⟨a, .text spells whole⟩
    | _ => cases found

theorem saturated_saturated (a : Int) : saturated (saturated a) = saturated a := by
  unfold saturated
  omega

end Value

namespace Globals

variable {globals : Globals}

/-- A variable that is missing, or whose value is no integer. -/
def LacksInteger (globals : Globals) (name : String) : Prop :=
  ∀ value a, globals.get? name = some value → ¬value.Denotes a

def lacksOffset (globals : Globals) (name : String) : Bool :=
  ((globals.get? name).bind Value.asOffset?).isNone

theorem lacksOffset_iff {name : String} :
    globals.lacksOffset name = true ↔ globals.LacksInteger name := by
  unfold lacksOffset LacksInteger
  cases found : globals.get? name with
  | none => simp
  | some value =>
      have none_iff : value.asOffset?.isNone = true ↔ ¬∃ a, value.Denotes a := by
        rw [Value.exists_denotes_iff, Bool.not_eq_true, Option.isSome_eq_false_iff]
      rw [Option.bind_some, none_iff, not_exists]
      refine ⟨?_, fun lacks a => lacks value a rfl⟩
      rintro notInteger other a ⟨⟩
      exact notInteger a

end Globals

namespace Path

/-- The operands that are index and slice bounds. -/
def Component.bounds : Component → List Operand
  | .index operand => [operand]
  | .slice start stop => start.toList ++ stop.toList
  | .name _ | .filter _ => []

/-- The names of the variables among the bounds, in the order in which they are written. -/
def boundNames (path : Path) : List String :=
  (path.components.flatMap Component.bounds).filterMap Operand.variable?

end Path

namespace Globals

variable {globals : Globals}

theorem failure?_offset (operand : Path.Operand) :
    failure? (globals.offset operand) =
      ([operand].filterMap Path.Operand.variable?).find? globals.lacksOffset := by
  cases operand with
  | literal value => rfl
  | reference name position =>
      have named : [Path.Operand.reference name position].filterMap
          Path.Operand.variable? = [name] := rfl
      rw [named, List.find?_singleton]
      unfold offset lacksOffset
      dsimp only
      cases (globals.get? name).bind Value.asOffset? <;> rfl

theorem failure?_map {ε α β : Type} (f : α → β) (outcome : Except ε α) :
    failure? (outcome.map f) = failure? outcome := by
  cases outcome <;> rfl

theorem failure?_strictBound? (bound : Option Path.Operand) :
    failure? (globals.strictBound? bound) =
      (bound.toList.filterMap Path.Operand.variable?).find? globals.lacksOffset := by
  cases bound with
  | none => rfl
  | some operand => exact (failure?_map some _).trans (failure?_offset operand)

theorem failure?_strictComponent (component : Path.Component) :
    failure? (globals.strictComponent component) =
      (component.bounds.filterMap Path.Operand.variable?).find? globals.lacksOffset := by
  cases component with
  | name name => rfl
  | index operand => exact (failure?_map _ _).trans (failure?_offset operand)
  | slice start stop =>
      rw [Path.Component.bounds, List.filterMap_append, List.find?_append,
        ← failure?_strictBound?, ← failure?_strictBound?]
      unfold strictComponent
      dsimp only
      cases globals.strictBound? start with
      | error name => rfl
      | ok first => cases globals.strictBound? stop <;> rfl
  | filter f => rfl

end Globals

namespace Path

theorem find?_boundNames (path : Path) (test : String → Bool) :
    path.boundNames.find? test = path.components.findSome? fun component =>
      (component.bounds.filterMap Operand.variable?).find? test := by
  unfold boundNames
  rw [List.filterMap_flatMap, List.find?_flatMap]

/-- A strict resolution fails at the first bound whose variable gives no integer. -/
theorem resolveStrict_eq_error_iff {path : Path} {globals : Globals} {error : QueryError} :
    path.resolveStrict globals = .error error ↔
      ∃ name, IsFirst globals.LacksInteger path.boundNames name ∧
        error = .nonNumericSliceBound name path.source := by
  have first : ∀ name, path.boundNames.find? globals.lacksOffset = some name ↔
      IsFirst globals.LacksInteger path.boundNames name :=
    fun _ => find?_eq_some_iff_isFirst fun _ => Globals.lacksOffset_iff
  rw [← failure?_eq_some_iff, failure?_resolveStrict]
  simp only [Globals.failure?_strictComponent, ← find?_boundNames, Option.map_eq_some_iff, first,
    @eq_comm _ error]

end Path

end MessageQuery
