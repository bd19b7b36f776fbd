import Mathlib.Data.List.Basic
import MessageQuery.Path.Parser
import MessageQuery.Walk

/-!
# Guidance by schemas

On a path without filters a schema can only reject the path, and it does so for every message or
for none. For the contexts of the places that a component leads to follow from the context where
it starts, whatever the values are. As long as there is such a context, the values are those that
the component reaches without a schema.
-/

namespace MessageQuery

/-- The catalog in which a topic holds content of which nothing is declared. -/
def Catalog.withoutSchema (catalog : Catalog) (topic : String) : Catalog :=
  ⟨catalog.topics.insert topic jsonType, catalog.datatypes.erase jsonType⟩

def Path.Component.isFilter : Path.Component → Bool
  | .filter _ => true
  | _ => false

namespace Walk

theorem rootContext?_withoutSchema (catalog : Catalog) (topic : String) :
    rootContext? (catalog.withoutSchema topic) topic = some .untyped := by
  have isJson : (catalog.withoutSchema topic).datatypeOfTopic? topic = some jsonType := by
    unfold Catalog.withoutSchema Catalog.datatypeOfTopic?
    rw [Dict.get?_insert, if_pos rfl]
  have unregistered : (catalog.withoutSchema topic).datatype? jsonType = none :=
    Dict.get?_erase_self catalog.datatypes jsonType
  unfold rootContext?
  rw [isJson, Option.bind_eq_bind, Option.bind_some, unregistered]
  exact if_pos rfl

/-! ## Values and contexts apart -/

/-- The values that a component reaches in a value. No schema has a say in it. -/
def reach : Path.Component → Value → List Value
  | .name name, value => (value.get? name).toList
  | .index operand, value => ((literalOffset? operand).bind fun offset => value.at? offset).toList
  | .slice start stop, value =>
      match value.asArray?, boundOffset? 0 start, boundOffset? (-1) stop with
      | some items, some first, some last => sliceItems items first last
      | _, _, _ => []
  | .filter _, _ => []

/-- The context of all that a component leads to. A filter has none of its own, for the value
decides whether it goes into an array. -/
def contextAfter? (catalog : Catalog) (context : Context) : Path.Component → Option Context
  | .name name => (partContext? catalog name context).map Prod.fst
  | .index _ | .slice _ _ => elementContext? catalog context
  | .filter _ => none

def ownerAfter? (catalog : Catalog) (place : Place) : Path.Component → Option Datatype
  | .name name => (partContext? catalog name place.context).bind Prod.snd
  | _ => place.owner?

variable {catalog : Catalog} {component : Path.Component}

/-- Without filters a step takes its values from the value alone, and their context from the
context alone. -/
theorem step_eq (plain : component.isFilter = false) (place : Place) :
    step catalog component place =
      match contextAfter? catalog place.context component with
      | none => []
      | some context => (reach component place.value).map fun value =>
          ⟨value, context, ownerAfter? catalog place component⟩ := by
  cases component with
  | name name =>
      simp only [step, name?, contextAfter?, ownerAfter?, reach]
      cases partContext? catalog name place.context with
      | none => rfl
      | some part => cases place.value.get? name <;> rfl
  | index operand =>
      simp only [step, index?, contextAfter?, ownerAfter?, reach]
      cases elementContext? catalog place.context with
      | none => rfl
      | some context =>
          cases literalOffset? operand with
          | none => rfl
          | some offset => cases isAt : place.value.at? offset <;> simp [isAt]
  | slice start stop =>
      simp only [step, slice, contextAfter?, ownerAfter?, reach]
      cases elementContext? catalog place.context with
      | none => rfl
      | some context =>
          cases place.value.asArray? <;> cases boundOffset? 0 start <;>
            cases boundOffset? (-1) stop <;> rfl
  | filter f => cases plain

/-! ## Whole paths -/

/-- The values that a list of components reaches, one component after the other. -/
def reachAlong : List Path.Component → List Value → List Value
  | [], values => values
  | component :: rest, values => reachAlong rest (values.flatMap (reach component))

/-- The context that a list of components leads to. -/
def contextAlong? (catalog : Catalog) : List Path.Component → Context → Option Context
  | [], context => some context
  | component :: rest, context =>
      (contextAfter? catalog context component).bind (contextAlong? catalog rest)

theorem steps_nil (catalog : Catalog) (components : List Path.Component) :
    steps catalog components [] = [] := by
  induction components with
  | nil => rfl
  | cons component rest ih => exact ih

variable {components : List Path.Component} {context : Context} {places : List Place}

/-- Places in one context all lead to one context, or none of them leads anywhere. -/
theorem flatMap_step (catalog : Catalog) (plain : component.isFilter = false)
    (alike : ∀ place ∈ places, place.context = context) :
    match contextAfter? catalog context component with
    | none => places.flatMap (step catalog component) = []
    | some next =>
        (∀ place ∈ places.flatMap (step catalog component), place.context = next) ∧
        (places.flatMap (step catalog component)).map Place.value =
          (places.map Place.value).flatMap (reach component) := by
  cases leads : contextAfter? catalog context component with
  | none =>
      apply List.flatMap_eq_nil_iff.mpr
      intro place member
      rw [step_eq plain, alike place member, leads]
  | some next =>
      have steps_eq : ∀ place ∈ places, step catalog component place =
          (reach component place.value).map fun value =>
            ⟨value, next, ownerAfter? catalog place component⟩ := by
        intro place member
        rw [step_eq plain, alike place member, leads]
      constructor
      · intro after member
        obtain ⟨place, isPlace, isAfter⟩ := List.mem_flatMap.mp member
        rw [steps_eq place isPlace] at isAfter
        obtain ⟨value, _, rfl⟩ := List.mem_map.mp isAfter
        rfl
      · rw [List.map_flatMap, List.flatMap_map]
        apply List.flatMap_congr
        intro place member
        rw [steps_eq place member, List.map_map]
        exact List.map_id' _

theorem steps_eq_nil (plain : ∀ component ∈ components, component.isFilter = false)
    (alike : ∀ place ∈ places, place.context = context)
    (rejected : contextAlong? catalog components context = none) :
    steps catalog components places = [] := by
  induction components generalizing context places with
  | nil => cases rejected
  | cons component rest ih =>
      have next := flatMap_step catalog (plain component List.mem_cons_self) alike
      rw [contextAlong?] at rejected
      cases leads : contextAfter? catalog context component with
      | none =>
          rw [leads] at next
          rw [steps, next, steps_nil]
      | some after =>
          rw [leads] at next rejected
          exact ih (fun later member => plain later (List.mem_cons_of_mem _ member)) next.1 rejected

theorem values_steps (plain : ∀ component ∈ components, component.isFilter = false)
    (alike : ∀ place ∈ places, place.context = context)
    (admitted : (contextAlong? catalog components context).isSome) :
    (steps catalog components places).map Place.value =
      reachAlong components (places.map Place.value) := by
  induction components generalizing context places with
  | nil => rfl
  | cons component rest ih =>
      have next := flatMap_step catalog (plain component List.mem_cons_self) alike
      rw [contextAlong?] at admitted
      cases leads : contextAfter? catalog context component with
      | none =>
          rw [leads] at admitted
          cases admitted
      | some after =>
          rw [leads] at next admitted
          obtain ⟨alike', values⟩ := next
          rw [steps, reachAlong, ← values]
          exact ih (fun later member => plain later (List.mem_cons_of_mem _ member)) alike' admitted

/-- Untyped content leads to untyped content by any component. -/
theorem contextAlong?_untyped (catalog : Catalog)
    (plain : ∀ component ∈ components, component.isFilter = false) :
    contextAlong? catalog components .untyped = some .untyped := by
  induction components with
  | nil => rfl
  | cons component rest ih =>
      have onward := ih fun later member => plain later (List.mem_cons_of_mem _ member)
      cases component with
      | filter f => cases plain _ List.mem_cons_self
      | name | index | slice => exact onward

end Walk

namespace Path

def IsFilterFree (path : Path) : Prop :=
  ∀ component ∈ path.components, component.isFilter = false

instance (path : Path) : Decidable path.IsFilterFree :=
  inferInstanceAs (Decidable (∀ component ∈ path.components, component.isFilter = false))

/-- Whether the schema of a path's topic has a context for each component of the path. No message
is asked. -/
def isAdmitted (path : Path) (catalog : Catalog) : Bool :=
  ((Walk.rootContext? catalog path.topic).bind
    (Walk.contextAlong? catalog path.components)).isSome

variable {path : Path} {catalog : Catalog}

theorem items?_eq_nil {context : Walk.Context} (plain : path.IsFilterFree)
    (isRoot : Walk.rootContext? catalog path.topic = some context)
    (rejected : Walk.contextAlong? catalog path.components context = none) (body : Value) :
    path.items? catalog body = some [] := by
  have alike : ∀ place ∈ [⟨body, context, none⟩], Walk.Place.context place = context :=
    List.forall_mem_singleton.mpr rfl
  unfold items?
  rw [isRoot, Option.map_some, Walk.steps_eq_nil plain alike rejected, List.map_nil]

/-- An admitted path gives the values that its components reach, whatever the schema. -/
theorem exists_items?_values {context : Walk.Context} (plain : path.IsFilterFree)
    (isRoot : Walk.rootContext? catalog path.topic = some context)
    (admitted : (Walk.contextAlong? catalog path.components context).isSome) (body : Value) :
    ∃ items, path.items? catalog body = some items ∧
      items.map Item.value = Walk.reachAlong path.components [body] := by
  have alike : ∀ place ∈ [⟨body, context, none⟩], Walk.Place.context place = context :=
    List.forall_mem_singleton.mpr rfl
  unfold items?
  rw [isRoot, Option.map_some]
  refine ⟨_, rfl, ?_⟩
  rw [List.map_map]
  exact Walk.values_steps plain alike admitted

/-- On a path without filters the schema has one verdict for all messages. A rejected path has no
items in any of them. An admitted path has the values that it has without the schema. -/
theorem items?_eq_withoutSchema (known : (Walk.rootContext? catalog path.topic).isSome)
    (plain : path.IsFilterFree) :
    (path.isAdmitted catalog = false → ∀ body, path.items? catalog body = some []) ∧
    (path.isAdmitted catalog = true → ∀ body, ∃ items bare,
      path.items? catalog body = some items ∧
      path.items? (catalog.withoutSchema path.topic) body = some bare ∧
      items.map Item.value = bare.map Item.value) := by
  obtain ⟨context, isRoot⟩ := Option.isSome_iff_exists.mp known
  unfold isAdmitted
  rw [isRoot, Option.bind_some]
  constructor
  · intro rejected body
    have nowhere := Option.isNone_iff_eq_none.mp (Option.isSome_eq_false_iff.mp rejected)
    exact items?_eq_nil plain isRoot nowhere body
  · intro admitted body
    obtain ⟨items, evaluated, values⟩ := exists_items?_values plain isRoot admitted body
    have isBare := Walk.rootContext?_withoutSchema catalog path.topic
    have untyped := Walk.contextAlong?_untyped (catalog.withoutSchema path.topic) plain
    obtain ⟨bare, evaluatedBare, bareValues⟩ :=
      exists_items?_values plain isBare (Option.isSome_of_eq_some untyped) body
    exact ⟨items, bare, evaluated, evaluatedBare, values.trans bareValues.symm⟩

/-- An array of a registered datatype next to a time. -/
def readingsCatalog : Catalog :=
  .ofLists [("/a", "Readings")]
    [("Readings", ⟨[.array "items" "Reading", ⟨"stamp", "time", false, false, none⟩]⟩),
      ("Reading", ⟨[⟨"level", "float64", false, false, none⟩]⟩)]

def readingsPath (field : String) : Path where
  source := "/a.items[0:]." ++ field
  topic := "/a"
  components := [.name "items", .slice (some (.literal (.ofInt 0))) none, .name field]
  modifier := none

def readingsBody : Value :=
  .object [("items", .array [.object [("level", .ofInt 1)], .object [("level", .ofInt 2)]])]

/-- The schema admits the declared field and rejects the other one. -/
theorem items?_eq_withoutSchema_readings :
    parse? "/a.items[0:].level" = some (readingsPath "level") ∧
    ((readingsPath "level").items? readingsCatalog readingsBody).map (·.map Item.value) =
      some [.ofInt 1, .ofInt 2] ∧
    (∀ body, ∃ items bare,
      (readingsPath "level").items? readingsCatalog body = some items ∧
      (readingsPath "level").items? (readingsCatalog.withoutSchema "/a") body = some bare ∧
      items.map Item.value = bare.map Item.value) ∧
    ∀ body, (readingsPath "speed").items? readingsCatalog body = some [] := by
  refine ⟨rfl, rfl, ?_, ?_⟩
  · exact (items?_eq_withoutSchema rfl (by decide)).2 rfl
  · exact (items?_eq_withoutSchema rfl (by decide)).1 rfl

end Path

end MessageQuery
