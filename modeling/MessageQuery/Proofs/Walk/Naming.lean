import MessageQuery.Proofs.NormalForm
import MessageQuery.Proofs.Walk.Conjunction

/-!
# Names of values

Which constants may name the values of a path is settled before any message is seen. What the
catalog says about a place follows from what it says about the place before, component by
component, and not from the values. So all items of a path are named by one datatype or by none. It
is the datatype that declares the last field of the path, and that field holds single values of a
declared type, or an array of them from which the path takes elements.
-/

namespace MessageQuery

/-- The constant that names a value is the first one that declares it. -/
theorem Datatype.constantName?_eq_some_iff {datatype : Datatype} {value : Value} {name : String} :
    datatype.constantName? value = some name ↔
      ∃ constant, IsFirst (fun other => other.isConstant = true ∧
          ∃ declared, other.value? = some declared ∧ declared.equal value = true)
        datatype.definitions constant ∧ constant.name = name := by
  rw [constantName?, Option.map_eq_some_iff]
  refine exists_congr fun constant => and_congr_left fun _ => find?_eq_some_iff_isFirst ?_
  intro other
  rw [Bool.and_eq_true, FieldDefinition.declares]
  cases other.value? <;> simp

namespace Path

/-- No filter compares the value itself, as is so for every path that was read. -/
def FiltersNameFields (path : Path) : Prop :=
  ∀ f, .filter f ∈ path.components → f.path ≠ []

def Component.takesElements : Component → Bool
  | .index _ | .slice _ _ => true
  | .name _ | .filter _ => false

end Path

namespace Walk

open Path (Component)

/-! ## What the catalog says along a path -/

/-- What the catalog says about all places to which a list of components leads: their context, and
the datatype that declares the field from which they are read. -/
structure Guide where
  context : Context
  owner? : Option Datatype

def Place.guide (place : Place) : Guide :=
  ⟨place.context, place.owner?⟩

def Context.hasFields : Context → Bool
  | .message _ | .time | .untyped => true
  | .scalar _ | .array _ => false

/-- A filter goes into an array, and keeps only what has fields. -/
def guideAfter? (catalog : Catalog) (guide : Guide) : Component → Option Guide
  | .name name =>
      (partContext? catalog name guide.context).map fun (context, owner?) => ⟨context, owner?⟩
  | .index _ | .slice _ _ =>
      (elementContext? catalog guide.context).map fun context => ⟨context, guide.owner?⟩
  | .filter _ =>
      let context := (elementContext? catalog guide.context).getD guide.context
      if context.hasFields then some ⟨context, guide.owner?⟩ else none

def guideAlong? (catalog : Catalog) : Guide → List Component → Option Guide
  | guide, [] => some guide
  | guide, component :: rest =>
      (guideAfter? catalog guide component).bind fun next => guideAlong? catalog next rest

/-- The datatype whose constants name the values that have the given guide. -/
def Guide.namer? (guide : Guide) : Option Datatype :=
  match guide.context with
  | .scalar _ => guide.owner?
  | _ => none

theorem Guide.namer?_eq_none {guide : Guide} (notScalar : ∀ kind, guide.context ≠ .scalar kind) :
    guide.namer? = none := by
  obtain ⟨context, owner?⟩ := guide
  cases context with
  | scalar kind => exact absurd rfl (notScalar kind)
  | message | time | array | untyped => rfl

theorem guideAlong?_append (catalog : Catalog) (guide : Guide) (first second : List Component) :
    guideAlong? catalog guide (first ++ second) =
      (guideAlong? catalog guide first).bind fun next => guideAlong? catalog next second := by
  induction first generalizing guide with
  | nil => rfl
  | cons component rest ih =>
      rw [List.cons_append, guideAlong?, guideAlong?]
      cases guideAfter? catalog guide component with
      | none => rfl
      | some next => exact ih next

variable {catalog : Catalog} {component : Component} {components : List Component}
  {place after : Place} {places : List Place} {guide next : Guide} {f : Path.Filter}

theorem constantName?_eq (place : Place) :
    constantName? place =
      place.guide.namer?.bind fun datatype => datatype.constantName? place.value := by
  rw [constantName?, Guide.namer?, Place.guide]
  cases place.context <;> rfl

theorem guideAfter?_filter_iff :
    guideAfter? catalog guide (.filter f) = some next ↔
      next.context.hasFields = true ∧
      (elementContext? catalog guide.context).getD guide.context = next.context ∧
      next.owner? = guide.owner? := by
  obtain ⟨context, owner?⟩ := next
  simp only [guideAfter?, Option.ite_none_right_eq_some, Option.some.injEq, Guide.mk.injEq]
  constructor
  · rintro ⟨fields, rfl, rfl⟩
    exact ⟨fields, rfl, rfl⟩
  · rintro ⟨fields, rfl, rfl⟩
    exact ⟨fields, rfl, rfl⟩

/-! ## Guides of places -/

/-- A filter that names a field keeps only what has fields. -/
theorem hasFields_of_matchesFilter (named : f.path ≠ [])
    (holds : matchesFilter catalog f place = true) : place.context.hasFields = true := by
  obtain ⟨name, next, isNext⟩ := exists_name?_of_matchesFilter named holds
  rw [name?] at isNext
  obtain ⟨_, isPart, _⟩ := Option.bind_eq_some_iff.mp isNext
  cases within : place.context with
  | message | time | untyped => rfl
  | scalar | array =>
      rw [within] at isPart
      cases isPart

/-- What has fields is no array field, so a filter on it that stays there stays in its context. -/
theorem getD_elementContext? {context : Context} (fields : context.hasFields = true) :
    (elementContext? catalog context).getD context = context := by
  cases context with
  | message | time | untyped => rfl
  | scalar | array => cases fields

theorem guide_of_mem_candidates (member : after ∈ candidates catalog place) :
    after = place ∨
      elementContext? catalog place.context = some after.context ∧ after.owner? = place.owner? := by
  rw [candidates] at member
  split at member
  · next within _ =>
      obtain ⟨item, _, rfl⟩ := List.mem_map.mp member
      rw [within]
      exact .inr ⟨rfl, rfl⟩
  · next within _ =>
      obtain ⟨item, _, rfl⟩ := List.mem_map.mp member
      rw [within]
      exact .inr ⟨rfl, rfl⟩
  · exact .inl (List.mem_singleton.mp member)

/-- The guide of a place to which one component leads follows from the guide of the place where it
starts. -/
theorem guideAfter?_of_mem_step (named : ∀ f, component = .filter f → f.path ≠ [])
    (member : after ∈ step catalog component place) :
    guideAfter? catalog place.guide component = some after.guide := by
  cases component with
  | name name =>
      have isNext : name? catalog name place = some after := Option.mem_toList.mp member
      rw [name?] at isNext
      obtain ⟨part, isPart, reached⟩ := Option.bind_eq_some_iff.mp isNext
      obtain ⟨value, _, same⟩ := Option.bind_eq_some_iff.mp reached
      cases same
      exact Option.map_eq_some_iff.mpr ⟨part, isPart, rfl⟩
  | index operand =>
      have isNext : index? catalog operand place = some after := Option.mem_toList.mp member
      rw [index?] at isNext
      obtain ⟨context, isContext, reached⟩ := Option.bind_eq_some_iff.mp isNext
      obtain ⟨offset, _, within⟩ := Option.bind_eq_some_iff.mp reached
      obtain ⟨value, _, same⟩ := Option.bind_eq_some_iff.mp within
      cases same
      exact Option.map_eq_some_iff.mpr ⟨context, isContext, rfl⟩
  | slice start stop =>
      change after ∈ slice catalog start stop place at member
      rw [slice] at member
      split at member
      · next context _ _ _ isContext _ _ _ =>
          obtain ⟨value, _, rfl⟩ := List.mem_map.mp member
          exact Option.map_eq_some_iff.mpr ⟨context, isContext, rfl⟩
      · cases member
  | filter f =>
      change after ∈ filter catalog f place at member
      rw [filter_eq] at member
      obtain ⟨isCandidate, holds⟩ := List.mem_filter.mp member
      have fields := hasFields_of_matchesFilter (named f rfl) holds
      apply guideAfter?_filter_iff.mpr
      rcases guide_of_mem_candidates isCandidate with rfl | ⟨isElement, sameOwner⟩
      · exact ⟨fields, getD_elementContext? fields, rfl⟩
      · refine ⟨fields, ?_, sameOwner⟩
        rw [Place.guide, isElement]
        rfl

/-- Places with one guide lead to places with one guide, whatever their values are. -/
theorem guideAlong?_of_mem_steps (named : ∀ f, .filter f ∈ components → f.path ≠ [])
    (alike : ∀ place ∈ places, place.guide = guide)
    (member : after ∈ steps catalog components places) :
    guideAlong? catalog guide components = some after.guide := by
  induction components generalizing guide places with
  | nil => exact congrArg some (alike after member).symm
  | cons component rest ih =>
      have leads : ∀ part ∈ places.flatMap (step catalog component),
          guideAfter? catalog guide component = some part.guide := by
        intro part isPart
        obtain ⟨place, isPlace, isStep⟩ := List.mem_flatMap.mp isPart
        rw [← alike place isPlace]
        exact guideAfter?_of_mem_step (fun f here => named f (here ▸ List.mem_cons_self)) isStep
      rw [guideAlong?]
      cases onward : guideAfter? catalog guide component with
      | none =>
          have nowhere : places.flatMap (step catalog component) = [] := by
            apply List.eq_nil_iff_forall_not_mem.mpr
            intro part isPart
            have found := leads part isPart
            rw [onward] at found
            cases found
          rw [steps, nowhere, steps_nil] at member
          cases member
      | some next =>
          refine ih (fun f later => named f (List.mem_cons_of_mem _ later)) ?_ member
          intro part isPart
          exact Option.some.inj ((leads part isPart).symm.trans onward)

/-! ## Types of fields -/

/-- Types that no registered datatype can hide. -/
def IsBuiltIn (type : String) : Prop :=
  type = jsonType ∨ isTimeType type = true

/-- What the context of a type can be, and why. -/
inductive TypeContext (catalog : Catalog) (type : String) : Context → Prop where
  | json (isJson : type = jsonType) : TypeContext catalog type .untyped
  | time (isTime : isTimeType type = true) : TypeContext catalog type .time
  | message {datatype : Datatype} (notBuiltIn : ¬IsBuiltIn type)
      (registered : catalog.datatype? type = some datatype) :
      TypeContext catalog type (.message datatype)
  | scalar {kind : ScalarKind} (notBuiltIn : ¬IsBuiltIn type)
      (unregistered : catalog.datatype? type = none)
      (isKind : ScalarKind.ofType? type = some kind) : TypeContext catalog type (.scalar kind)
  | unknown (notBuiltIn : ¬IsBuiltIn type) (unregistered : catalog.datatype? type = none)
      (notScalar : ScalarKind.ofType? type = none) : TypeContext catalog type .untyped

theorem typeContext (catalog : Catalog) (type : String) :
    TypeContext catalog type (contextOfType catalog type) := by
  rw [contextOfType]
  split
  · next isJson => exact .json isJson
  · next notJson =>
      split
      · next isTime => exact .time isTime
      · next notTime =>
          have notBuiltIn : ¬IsBuiltIn type := not_or.mpr ⟨notJson, notTime⟩
          split
          · next registered => exact .message notBuiltIn registered
          · next unregistered =>
              split
              · next isKind => exact .scalar notBuiltIn unregistered isKind
              · next notScalar => exact .unknown notBuiltIn unregistered notScalar

/-- A field that holds an array has a context of its own, unless it is opaque. -/
inductive FieldContext (catalog : Catalog) (definition : FieldDefinition) : Context → Prop where
  | array (isArray : definition.isArray = true) (notJson : definition.type ≠ jsonType) :
      FieldContext catalog definition (.array definition.type)
  | single {context : Context} (single : definition.isArray = false)
      (isContext : TypeContext catalog definition.type context) :
      FieldContext catalog definition context
  | json (isJson : definition.type = jsonType) : FieldContext catalog definition .untyped

theorem fieldContext (catalog : Catalog) (definition : FieldDefinition) :
    FieldContext catalog definition (contextOfField catalog definition) := by
  rw [contextOfField]
  by_cases isJson : definition.type = jsonType
  · have untyped : contextOfType catalog definition.type = .untyped := if_pos isJson
    simpa [isJson, untyped] using .json isJson
  · cases isArray : definition.isArray with
    | true => simpa [isJson] using .array isArray isJson
    | false => exact .single isArray (typeContext catalog definition.type)

/-- What one component can do to a guide. -/
inductive GuideStep (catalog : Catalog) : Guide → Component → Guide → Prop where
  | field {datatype : Datatype} {owner? : Option Datatype} {name : String}
      {definition : FieldDefinition} {context : Context}
      (declared : datatype.field? name = some definition)
      (isContext : FieldContext catalog definition context) :
      GuideStep catalog ⟨.message datatype, owner?⟩ (.name name) ⟨context, some datatype⟩
  | timePart {owner? : Option Datatype} {name : String} :
      GuideStep catalog ⟨.time, owner?⟩ (.name name) ⟨.scalar .number, none⟩
  | untypedPart {owner? : Option Datatype} {name : String} :
      GuideStep catalog ⟨.untyped, owner?⟩ (.name name) ⟨.untyped, none⟩
  | element {type : String} {owner? : Option Datatype} {component : Component} {context : Context}
      (takes : component.takesElements = true) (isContext : TypeContext catalog type context) :
      GuideStep catalog ⟨.array type, owner?⟩ component ⟨context, owner?⟩
  | untypedElement {owner? : Option Datatype} {component : Component} :
      GuideStep catalog ⟨.untyped, owner?⟩ component ⟨.untyped, owner?⟩
  | filtered {guide : Guide} {f : Path.Filter} (fields : guide.context.hasFields = true) :
      GuideStep catalog guide (.filter f) guide
  | filteredElement {type : String} {owner? : Option Datatype} {f : Path.Filter}
      {context : Context} (isContext : TypeContext catalog type context)
      (fields : context.hasFields = true) :
      GuideStep catalog ⟨.array type, owner?⟩ (.filter f) ⟨context, owner?⟩

theorem guideStep_of_elements (takes : component.takesElements = true)
    (onward : (elementContext? catalog guide.context).map (Guide.mk · guide.owner?) = some next) :
    GuideStep catalog guide component next := by
  obtain ⟨context, owner?⟩ := guide
  obtain ⟨inner, isInner, rfl⟩ := Option.map_eq_some_iff.mp onward
  cases context with
  | array type =>
      cases isInner
      exact .element takes (typeContext catalog type)
  | untyped =>
      cases isInner
      exact .untypedElement
  | message | time | scalar => cases isInner

theorem guideStep_of_guideAfter? (onward : guideAfter? catalog guide component = some next) :
    GuideStep catalog guide component next := by
  cases component with
  | name name =>
      obtain ⟨context, owner?⟩ := guide
      obtain ⟨part, isPart, rfl⟩ := Option.map_eq_some_iff.mp onward
      cases context with
      | message datatype =>
          obtain ⟨definition, declared, rfl⟩ := Option.map_eq_some_iff.mp isPart
          exact .field declared (fieldContext catalog definition)
      | time =>
          obtain ⟨_, same⟩ := Option.ite_none_right_eq_some.mp isPart
          cases same
          exact .timePart
      | untyped =>
          cases isPart
          exact .untypedPart
      | scalar | array => cases isPart
  | index operand => exact guideStep_of_elements rfl onward
  | slice start stop => exact guideStep_of_elements rfl onward
  | filter f =>
      obtain ⟨fields, inside, sameOwner⟩ := guideAfter?_filter_iff.mp onward
      obtain ⟨context, owner?⟩ := guide
      obtain ⟨inner, other⟩ := next
      cases sameOwner
      cases context with
      | array type =>
          cases inside
          exact .filteredElement (typeContext catalog type) fields
      | message | time | untyped | scalar =>
          cases inside
          exact .filtered fields

/-- What each step keeps holds along any list of components. -/
theorem guideAlong?_keeps (holds : List Component → Guide → Prop)
    (step : ∀ {consumed guide component next}, holds consumed guide →
      GuideStep catalog guide component next → holds (consumed ++ [component]) next)
    (consumed : List Component) {rest : List Component} {final : Guide}
    (start : holds consumed guide) (along : guideAlong? catalog guide rest = some final) :
    holds (consumed ++ rest) final := by
  induction rest generalizing consumed guide with
  | nil =>
      cases along
      rw [List.append_nil]
      exact start
  | cons component rest ih =>
      rw [guideAlong?] at along
      obtain ⟨next, onward, further⟩ := Option.bind_eq_some_iff.mp along
      have stepped :=
        ih (consumed ++ [component]) (step start (guideStep_of_guideAfter? onward)) further
      rwa [List.append_assoc] at stepped

/-! ## Where names come from -/

/-- The types of single values: those of the declared ones that no registered datatype hides. -/
def IsScalarType (catalog : Catalog) (type : String) : Prop :=
  (ScalarKind.ofType? type).isSome ∧ catalog.datatype? type = none

/-- A registered datatype declares a message field, the first one of its name. -/
structure DeclaresField (catalog : Catalog) (datatype : Datatype)
    (definition : FieldDefinition) : Prop where
  registered : ∃ type, catalog.datatype? type = some datatype
  first : IsFirst (fun other => other.isConstant = false ∧ other.name = definition.name)
    datatype.definitions definition

/-- A list of components ends at single values of a declared type, with the name of a field of that
type, or with an index or a slice into a field that holds an array of them. -/
inductive EndsAtScalars (catalog : Catalog) (datatype : Datatype) : List Component → Prop where
  | field {before : List Component} {definition : FieldDefinition}
      (declared : DeclaresField catalog datatype definition)
      (isScalar : IsScalarType catalog definition.type) (single : definition.isArray = false) :
      EndsAtScalars catalog datatype (before ++ [.name definition.name])
  | elements {before : List Component} {definition : FieldDefinition} {component : Component}
      (declared : DeclaresField catalog datatype definition)
      (isScalar : IsScalarType catalog definition.type) (isArray : definition.isArray = true)
      (takes : component.takesElements = true) :
      EndsAtScalars catalog datatype (before ++ [.name definition.name] ++ [component])

/-- The guides to which lists of components lead. Single values with an owner are those that the
owner declares. -/
inductive Grounded (catalog : Catalog) : List Component → Guide → Prop where
  | message {consumed : List Component} {type : String} {datatype : Datatype}
      {owner? : Option Datatype} (registered : catalog.datatype? type = some datatype) :
      Grounded catalog consumed ⟨.message datatype, owner?⟩
  | time {consumed : List Component} {owner? : Option Datatype} :
      Grounded catalog consumed ⟨.time, owner?⟩
  | untyped {consumed : List Component} {owner? : Option Datatype} :
      Grounded catalog consumed ⟨.untyped, owner?⟩
  | array {before : List Component} {datatype : Datatype} {definition : FieldDefinition}
      (declared : DeclaresField catalog datatype definition)
      (isArray : definition.isArray = true) :
      Grounded catalog (before ++ [.name definition.name]) ⟨.array definition.type, some datatype⟩
  | scalar {consumed : List Component} {kind : ScalarKind} {datatype : Datatype}
      (ends : EndsAtScalars catalog datatype consumed) :
      Grounded catalog consumed ⟨.scalar kind, some datatype⟩
  | timePart {consumed : List Component} {kind : ScalarKind} :
      Grounded catalog consumed ⟨.scalar kind, none⟩

theorem declaresField_of_field? {type name : String} {datatype : Datatype}
    {definition : FieldDefinition} (registered : catalog.datatype? type = some datatype)
    (declared : datatype.field? name = some definition) :
    definition.name = name ∧ DeclaresField catalog datatype definition := by
  have isFirst : IsFirst (fun other => other.isConstant = false ∧ other.name = name)
      datatype.definitions definition :=
    (find?_eq_some_iff_isFirst fun other => by simp).mp declared
  obtain ⟨_, rfl⟩ := isFirst.1
  exact ⟨rfl, ⟨type, registered⟩, isFirst⟩

/-- Single values apart, the context of a type is grounded wherever it is met. -/
theorem grounded_of_typeContext {type : String} {context : Context} {owner? : Option Datatype}
    {consumed : List Component} (isContext : TypeContext catalog type context)
    (scalars : ∀ kind, context = .scalar kind → IsScalarType catalog type →
      Grounded catalog consumed ⟨.scalar kind, owner?⟩) :
    Grounded catalog consumed ⟨context, owner?⟩ := by
  cases isContext with
  | json => exact .untyped
  | time => exact .time
  | message _ registered => exact .message registered
  | scalar _ unregistered isKind =>
      exact scalars _ rfl ⟨Option.isSome_of_eq_some isKind, unregistered⟩
  | unknown => exact .untyped

namespace Grounded

variable {consumed : List Component} {final : Guide}

theorem root {topic : String} {context : Context}
    (isRoot : rootContext? catalog topic = some context) : Grounded catalog [] ⟨context, none⟩ := by
  rw [rootContext?] at isRoot
  obtain ⟨type, _, isContext⟩ := Option.bind_eq_some_iff.mp isRoot
  split at isContext
  · next registered =>
      cases isContext
      exact .message registered
  · obtain ⟨_, same⟩ := Option.ite_none_right_eq_some.mp isContext
    cases same
    exact .untyped

theorem step (grounded : Grounded catalog consumed guide)
    (leads : GuideStep catalog guide component next) :
    Grounded catalog (consumed ++ [component]) next := by
  cases leads with
  | field declared isContext =>
      cases grounded with
      | message registered =>
          obtain ⟨rfl, declares⟩ := declaresField_of_field? registered declared
          cases isContext with
          | array isArray _ => exact .array declares isArray
          | json _ => exact .untyped
          | single single isContext =>
              exact grounded_of_typeContext isContext fun _ _ isScalar =>
                .scalar (.field declares isScalar single)
  | timePart => exact .timePart
  | untypedPart => exact .untyped
  | element takes isContext =>
      cases grounded with
      | array declares isArray =>
          exact grounded_of_typeContext isContext fun _ _ isScalar =>
            .scalar (.elements declares isScalar isArray takes)
  | untypedElement => exact .untyped
  | filtered fields =>
      cases grounded with
      | message registered => exact .message registered
      | time => exact .time
      | untyped => exact .untyped
      | array | scalar | timePart => cases fields
  | filteredElement isContext fields =>
      refine grounded_of_typeContext isContext fun kind isScalar _ => ?_
      rw [isScalar] at fields
      cases fields

theorem endsAtScalars {datatype : Datatype} (grounded : Grounded catalog consumed guide)
    (names : guide.namer? = some datatype) : EndsAtScalars catalog datatype consumed := by
  cases grounded with
  | scalar ends =>
      cases names
      exact ends
  | message | time | untyped | array | timePart => cases names

end Grounded

/-! ## What is never named -/

/-- The types without constants: times and durations, opaque content, and datatypes that are not
registered. -/
def IsUnnamedType (catalog : Catalog) (type : String) : Prop :=
  IsBuiltIn type ∨ catalog.datatype? type = none ∧ ScalarKind.ofType? type = none

/-- The guides of what is read through a type without constants. -/
inductive Unnamed (catalog : Catalog) : Guide → Prop where
  | time {owner? : Option Datatype} : Unnamed catalog ⟨.time, owner?⟩
  | untyped {owner? : Option Datatype} : Unnamed catalog ⟨.untyped, owner?⟩
  | array {type : String} {owner? : Option Datatype} (unnamed : IsUnnamedType catalog type) :
      Unnamed catalog ⟨.array type, owner?⟩
  | timePart {kind : ScalarKind} : Unnamed catalog ⟨.scalar kind, none⟩

theorem unnamed_of_typeContext {type : String} {context : Context} {owner? : Option Datatype}
    (unnamed : IsUnnamedType catalog type) (isContext : TypeContext catalog type context) :
    Unnamed catalog ⟨context, owner?⟩ := by
  cases isContext with
  | json => exact .untyped
  | time => exact .time
  | unknown => exact .untyped
  | message notBuiltIn registered =>
      rcases unnamed with builtIn | ⟨unregistered, _⟩
      · exact absurd builtIn notBuiltIn
      · rw [unregistered] at registered
        cases registered
  | scalar notBuiltIn _ isKind =>
      rcases unnamed with builtIn | ⟨_, notScalar⟩
      · exact absurd builtIn notBuiltIn
      · rw [notScalar] at isKind
        cases isKind

theorem unnamed_of_fieldContext {definition : FieldDefinition} {context : Context}
    {owner? : Option Datatype} (unnamed : IsUnnamedType catalog definition.type)
    (isContext : FieldContext catalog definition context) : Unnamed catalog ⟨context, owner?⟩ := by
  cases isContext with
  | array => exact .array unnamed
  | single _ isType => exact unnamed_of_typeContext unnamed isType
  | json => exact .untyped

namespace Unnamed

theorem step (unnamed : Unnamed catalog guide) (leads : GuideStep catalog guide component next) :
    Unnamed catalog next := by
  cases leads with
  | field => cases unnamed
  | timePart => exact .timePart
  | untypedPart => exact .untyped
  | untypedElement => exact .untyped
  | filtered _ => exact unnamed
  | element _ isContext | filteredElement isContext _ =>
      cases unnamed with
      | array unnamedType => exact unnamed_of_typeContext unnamedType isContext

theorem namer?_eq_none (unnamed : Unnamed catalog guide) : guide.namer? = none := by
  cases unnamed <;> rfl

/-- Nothing that follows brings a name back. -/
theorem namer?_eq_none_of_guideAlong? {final : Guide} (unnamed : Unnamed catalog guide)
    (along : guideAlong? catalog guide components = some final) : final.namer? = none :=
  (guideAlong?_keeps (fun _ => Unnamed catalog) step [] unnamed along).namer?_eq_none

end Unnamed

end Walk

/-! ## Whole paths -/

namespace Path

/-- What the catalog says about the places to which the first components of a path lead. -/
def guide? (path : Path) (catalog : Catalog) (components : List Component) : Option Walk.Guide :=
  (Walk.rootContext? catalog path.topic).bind fun context =>
    Walk.guideAlong? catalog ⟨context, none⟩ components

/-- The datatype whose constants name the values of a path. No message is asked. -/
def namer? (path : Path) (catalog : Catalog) : Option Datatype :=
  (path.guide? catalog path.components).bind Walk.Guide.namer?

/-- No item of the path has a name, in any message. -/
def IsNameless (path : Path) (catalog : Catalog) : Prop :=
  ∀ body items, path.items? catalog body = some items →
    ∀ item ∈ items, item.constantName? = none

/-- The path names a field of a datatype, on its way or at its end. -/
def Visits (path : Path) (catalog : Catalog) (definition : FieldDefinition) : Prop :=
  ∃ before name rest datatype owner?, path.components = before ++ .name name :: rest ∧
    path.guide? catalog before = some ⟨.message datatype, owner?⟩ ∧
    datatype.field? name = some definition

variable {path : Path} {catalog : Catalog} {body : Value} {items : List Item} {item : Item}

/-- The items of a path are named by the datatype that the catalog and the path determine. -/
theorem constantName?_of_mem (named : path.FiltersNameFields)
    (evaluated : path.items? catalog body = some items) (member : item ∈ items) :
    item.constantName? =
      (path.namer? catalog).bind fun datatype => datatype.constantName? item.value := by
  rw [items?] at evaluated
  obtain ⟨context, isRoot, rfl⟩ := Option.map_eq_some_iff.mp evaluated
  obtain ⟨place, isPlace, rfl⟩ := List.mem_map.mp member
  have alike : ∀ start ∈ [(⟨body, context, none⟩ : Walk.Place)],
      start.guide = ⟨context, none⟩ := List.forall_mem_singleton.mpr rfl
  have guided := Walk.guideAlong?_of_mem_steps named alike isPlace
  rw [namer?, guide?, isRoot, Option.bind_some, guided, Option.bind_some]
  exact Walk.constantName?_eq place

theorem isNameless_of_namer? (named : path.FiltersNameFields)
    (nobody : path.namer? catalog = none) : path.IsNameless catalog := by
  intro body items evaluated item member
  rw [constantName?_of_mem named evaluated member, nobody]
  rfl

theorem isNameless_of_unnamed (named : path.FiltersNameFields)
    (unnamed : ∀ guide, path.guide? catalog path.components = some guide →
      guide.namer? = none) : path.IsNameless catalog := by
  apply isNameless_of_namer? named
  rw [namer?]
  cases isGuide : path.guide? catalog path.components with
  | none => rfl
  | some guide => exact unnamed guide isGuide

theorem endsAtScalars_of_namer? {datatype : Datatype}
    (isNamer : path.namer? catalog = some datatype) :
    Walk.EndsAtScalars catalog datatype path.components := by
  obtain ⟨guide, isGuide, names⟩ := Option.bind_eq_some_iff.mp isNamer
  obtain ⟨context, isRoot, along⟩ := Option.bind_eq_some_iff.mp isGuide
  have grounded := Walk.guideAlong?_keeps (Walk.Grounded catalog) Walk.Grounded.step []
    (Walk.Grounded.root isRoot) along
  exact grounded.endsAtScalars names

theorem isNameless_of_visits (named : path.FiltersNameFields) {definition : FieldDefinition}
    (visits : path.Visits catalog definition)
    (unnamed : Walk.IsUnnamedType catalog definition.type) : path.IsNameless catalog := by
  obtain ⟨before, name, rest, datatype, owner?, splits, reaches, declared⟩ := visits
  apply isNameless_of_unnamed named
  intro guide isGuide
  obtain ⟨context, isRoot, along⟩ := Option.bind_eq_some_iff.mp isGuide
  rw [guide?, isRoot, Option.bind_some] at reaches
  rw [splits, Walk.guideAlong?_append, reaches, Option.bind_some] at along
  obtain ⟨next, onward, further⟩ := Option.bind_eq_some_iff.mp along
  cases Walk.guideStep_of_guideAfter? onward with
  | field found isContext =>
      rw [declared] at found
      cases found
      have start : Walk.Unnamed catalog ⟨_, some datatype⟩ :=
        Walk.unnamed_of_fieldContext unnamed isContext
      exact start.namer?_eq_none_of_guideAlong? further

theorem isNameless_of_untyped (named : path.FiltersNameFields)
    (isRoot : Walk.rootContext? catalog path.topic = some .untyped) :
    path.IsNameless catalog := by
  apply isNameless_of_unnamed named
  intro guide isGuide
  rw [guide?, isRoot, Option.bind_some] at isGuide
  exact Walk.Unnamed.untyped.namer?_eq_none_of_guideAlong? isGuide

theorem filtersNameFields_resolve {text : String} {parsed : Path}
    (reads : parse? text = some parsed) (globals : Globals) :
    (parsed.resolve globals).path.FiltersNameFields := by
  intro f member
  obtain ⟨component, isComponent, resolved⟩ := List.mem_map.mp member
  have isFilter := globals.filter?_component component
  rw [resolved] at isFilter
  obtain ⟨g, isOriginal, rfl⟩ := Option.map_eq_some_iff.mp isFilter.symm
  cases component with
  | filter h =>
      cases isOriginal
      have original : g.path ≠ [] := by
        cases derives_of_parse? reads with
        | mk _ rest => exact filter_path_ne_nil_of_components rest isComponent
      exact original
  | name | index | slice => cases isOriginal

/-- The values of a path are named by no constants at all, or by those of one registered datatype,
which catalog and path determine. It declares the last name of the path as a field of single values
of a declared type, or of an array of them into which the path takes an index or a slice; and each
item then has the name of the first constant of the datatype that has the value of the item. There
are no names for what is read through times, durations, opaque content and datatypes that are not
registered, nor for whole arrays and messages. The filters of a path name fields if it was read from
a text, and resolving keeps them. -/
theorem names_come_from_one_datatype (catalog : Catalog) :
    (∀ path : Path, path.FiltersNameFields →
      (path.namer? catalog = none ∧ path.IsNameless catalog ∨
        ∃ datatype, path.namer? catalog = some datatype ∧
          Walk.EndsAtScalars catalog datatype path.components ∧
          ∀ body items, path.items? catalog body = some items → ∀ item ∈ items, ∀ name,
            item.constantName? = some name ↔
              ∃ constant, IsFirst (fun other => other.isConstant = true ∧
                  ∃ declared, other.value? = some declared ∧ declared.equal item.value = true)
                datatype.definitions constant ∧ constant.name = name) ∧
      (∀ definition, path.Visits catalog definition →
        Walk.IsUnnamedType catalog definition.type → path.IsNameless catalog) ∧
      (Walk.rootContext? catalog path.topic = some .untyped → path.IsNameless catalog) ∧
      ∀ guide, path.guide? catalog path.components = some guide →
        (∀ kind, guide.context ≠ .scalar kind) → path.IsNameless catalog) ∧
    ∀ text parsed globals, parse? text = some parsed →
      (parsed.resolve globals).path.FiltersNameFields := by
  refine ⟨fun path named => ⟨?_, fun definition visits unnamed =>
    isNameless_of_visits named visits unnamed, isNameless_of_untyped named, ?_⟩,
    fun text parsed globals reads => filtersNameFields_resolve reads globals⟩
  · cases isNamer : path.namer? catalog with
    | none => exact .inl ⟨rfl, isNameless_of_namer? named isNamer⟩
    | some datatype =>
        refine .inr ⟨datatype, rfl, endsAtScalars_of_namer? isNamer, ?_⟩
        intro body items evaluated item member name
        rw [constantName?_of_mem named evaluated member, isNamer, Option.bind_some]
        exact Datatype.constantName?_eq_some_iff
  · intro guide isGuide notScalar
    apply isNameless_of_unnamed named
    intro other isOther
    rw [isGuide] at isOther
    cases isOther
    exact Walk.Guide.namer?_eq_none notScalar

/-- Two constants share a value, and one has the name of a constant of the enclosing datatype. -/
def device : Datatype :=
  ⟨[.constant "IDLE" "uint8" (.ofInt 0), .constant "OFF" "uint8" (.ofInt 0),
    .array "states" "uint8", .constant "BUSY" "uint8" (.ofInt 1),
    ⟨"stamp", "time", false, false, none⟩]⟩

def fleetCatalog : Catalog :=
  .ofLists [("/a", "Fleet")]
    [("Device", device),
      ("Fleet", ⟨[.array "devices" "Device", .constant "BUSY" "uint8" (.ofInt 2)]⟩)]

/-- The filter goes into an array of messages, the slice into an array of single values. -/
def statesPath : Path where
  source := "/a.devices{stamp.sec==5}.states[:]"
  topic := "/a"
  components :=
    [.name "devices", .filter ⟨["stamp", "sec"], .literal (.ofInt 5), "stamp.sec==5", 11, 22⟩,
      .name "states", .slice none none]
  modifier := none

def stampsPath : Path :=
  { statesPath with components := [.name "devices", .slice none none, .name "stamp", .name "sec"] }

/-- The last number is no integer in form, but in value. -/
def fleetBody : Value :=
  .object [("devices", .array [.object
    [("stamp", .object [("nsec", .ofInt 0), ("sec", .ofInt 5)]),
      ("states", .array [.ofInt 0, .ofInt 2, .number (.float (.ofInt 1))])]])]

/-- The device names its states, the fleet does not, and nothing names a second. -/
theorem names_come_from_one_datatype_fleet :
    parse? "/a.devices{stamp.sec==5}.states[:]" = some statesPath ∧
    (statesPath.items? fleetCatalog fleetBody).map (·.map Item.constantName?) =
      some [some "IDLE", none, some "BUSY"] ∧
    Walk.EndsAtScalars fleetCatalog device statesPath.components ∧
    (∀ body items, statesPath.items? fleetCatalog body = some items → ∀ item ∈ items,
      item.value = .number (.float (.ofInt 1)) → item.constantName? = some "BUSY") ∧
    stampsPath.IsNameless fleetCatalog := by
  obtain ⟨paths, resolved⟩ := names_come_from_one_datatype fleetCatalog
  have reads : parse? "/a.devices{stamp.sec==5}.states[:]" = some statesPath := rfl
  have named : statesPath.FiltersNameFields := resolved _ _ .empty reads
  have plain : stampsPath.FiltersNameFields := by
    intro f member
    simp [stampsPath] at member
  have visits : stampsPath.Visits fleetCatalog ⟨"stamp", "time", false, false, none⟩ :=
    ⟨[.name "devices", .slice none none], "stamp", [.name "sec"], device, _, rfl, rfl, rfl⟩
  have nameless := (paths stampsPath plain).2.1 _ visits (.inl (.inr rfl))
  have isNamer : statesPath.namer? fleetCatalog = some device := rfl
  rcases (paths statesPath named).1 with ⟨nobody, _⟩ | ⟨datatype, isDatatype, ends, names⟩
  · cases nobody.symm.trans isNamer
  · cases isDatatype.symm.trans isNamer
    refine ⟨reads, by decide +kernel, ends, ?_, nameless⟩
    intro body items evaluated item member isOne
    have isBusy : device.constantName? item.value = some "BUSY" := by
      rw [isOne]
      decide +kernel
    exact (names body items evaluated item member "BUSY").mpr
      (Datatype.constantName?_eq_some_iff.mp isBusy)

end Path

end MessageQuery
