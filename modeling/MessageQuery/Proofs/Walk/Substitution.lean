import MessageQuery.Path.Parser
import MessageQuery.Proofs.Resolution
import MessageQuery.Walk

/-!
# Walks under snapshots that agree

Where two snapshots have alike values for the variables of a path, the resolved paths have the same
bounds, and their filters compare with alike values. A filter can tell alike numbers apart in one
way only: a text field is compared with the digits of a number, and numbers of different forms may
be equal and yet be written differently, such as zero and negative zero. If the variables of the
filters are written alike too, both paths have the same items in every message.
-/

namespace MessageQuery

/-! ## Literals -/

namespace Number

theorem asUnsigned?_eq_of_equal {a b : Number} (same : a.equal b = true) :
    a.asUnsigned? = b.asUnsigned? := by
  unfold asUnsigned?
  rw [toInt?_eq_of_equal same]

/-- No number tells equal numbers apart. -/
theorem equal_eq_of_equal {a b : Number} (same : a.equal b = true) (number : Number) :
    number.equal a = number.equal b := by
  rw [Bool.eq_iff_iff]
  constructor
  · intro first
    exact equal_trans first same
  · intro second
    exact equal_trans second (equal_symm same)

end Number

/-- Whether two values are written alike, as far as both are numbers. -/
def Value.WrittenAlike : Value → Value → Prop
  | .number a, .number b => a.toDecimal = b.toDecimal
  | _, _ => True

namespace Walk

/-- Filters cannot tell equal numbers apart exactly if these are written alike. -/
theorem matchesLiteral_number_eq_iff {a b : Number} (same : a.equal b = true) :
    (∀ context actual,
      matchesLiteral context actual (.number a) = matchesLiteral context actual (.number b)) ↔
      a.toDecimal = b.toDecimal := by
  constructor
  · intro alike
    have found := alike (.scalar .text) (.string (String.ofList a.toDecimal))
    simp only [matchesLiteral, beq_self_eq_true] at found
    exact String.ofList_injective (eq_of_beq found.symm)
  · intro written context actual
    cases actual with
    | number number => exact Number.equal_eq_of_equal same number
    | string text => simp only [matchesLiteral, written]
    | bool b => simp only [matchesLiteral, Number.asUnsigned?_eq_of_equal same]
    | null | array | object => rfl

theorem matchesLiteral_eq_of_alike {first second : Value} (alike : first.Alike second)
    (written : first.WrittenAlike second) (context : Context) (actual : Value) :
    matchesLiteral context actual first = matchesLiteral context actual second := by
  rcases alike with rfl | same
  · rfl
  · cases first with
    | null =>
        cases second with
        | null => rfl
        | _ => cases same
    | bool a =>
        cases second with
        | bool b => rw [eq_of_beq same]
        | _ => cases same
    | number a =>
        cases second with
        | number b => exact (matchesLiteral_number_eq_iff same).mpr written context actual
        | _ => cases same
    | string a =>
        cases second with
        | string b => rw [eq_of_beq same]
        | _ => cases same
    -- No value matches an array or an object.
    | array items =>
        cases second with
        | array others => cases actual <;> rfl
        | _ => cases same
    | object fields =>
        cases second with
        | object others => cases actual <;> rfl
        | _ => cases same

end Walk

/-! ## Components -/

namespace Globals

/-- The names that both snapshots have are written alike in them. -/
def WriteAlike (names : List String) (first second : Globals) : Prop :=
  ∀ name ∈ names, ∀ a b, first.get? name = some a → second.get? name = some b → a.WrittenAlike b

end Globals

/-- The variable whose value a component compares with. -/
def Path.Component.filterVariable? : Component → Option String
  | .filter f => f.value.variable?
  | _ => none

/-- The variables whose values a path compares with. -/
def Path.filterVariables (path : Path) : List String :=
  path.components.filterMap Component.filterVariable?

namespace Walk

variable {first second : Globals}

theorem matchesFilter_eq_of_agree {f : Path.Filter}
    (agree : Globals.AgreeOn f.value.variable?.toList first second)
    (written : Globals.WriteAlike f.value.variable?.toList first second)
    (catalog : Catalog) (place : Place) :
    matchesFilter catalog (first.filter f) place = matchesFilter catalog (second.filter f) place := by
  cases value : f.value with
  | literal expected => simp only [Globals.filter, Globals.filterValue, value]
  | reference name position =>
      rw [value] at agree written
      have related := agree name List.mem_cons_self
      have alike := written name List.mem_cons_self
      simp only [Globals.filter, Globals.filterValue, value]
      generalize first.get? name = a at related alike
      generalize second.get? name = b at related alike
      cases related with
      | none => rfl
      | some same =>
          unfold matchesFilter
          cases field? catalog f.path place with
          | none => rfl
          | some found => exact matchesLiteral_eq_of_alike same (alike _ _ rfl rfl) _ _

/-- One component leads to the same places under both snapshots. -/
theorem step_eq_of_agree {component : Path.Component}
    (agree : Globals.AgreeOn (component.operands.filterMap Path.Operand.variable?) first second)
    (written : Globals.WriteAlike component.filterVariable?.toList first second)
    (catalog : Catalog) (place : Place) :
    step catalog (first.component component) place =
      step catalog (second.component component) place := by
  cases component with
  | filter f =>
      have same := matchesFilter_eq_of_agree (agree.mono fun name member => by
        simpa [Path.Component.operands] using member) written catalog
      have same' : matchesFilter catalog (first.filter f) = matchesFilter catalog (second.filter f) :=
        funext same
      simp only [Globals.component, step, filter, same']
  | name | index | slice => rw [Globals.component_eq_of_agree agree (by simp)]

/-- Components that lead to the same places everywhere do so one after the other. -/
theorem steps_map_eq {f g : Path.Component → Path.Component} {components : List Path.Component}
    {catalog : Catalog}
    (same : ∀ component ∈ components, ∀ place,
      step catalog (f component) place = step catalog (g component) place) (places : List Place) :
    steps catalog (components.map f) places = steps catalog (components.map g) places := by
  induction components generalizing places with
  | nil => rfl
  | cons component rest ih =>
      have here : step catalog (f component) = step catalog (g component) :=
        funext (same component List.mem_cons_self)
      rw [List.map_cons, List.map_cons, steps, steps, here]
      exact ih (fun later member => same later (List.mem_cons_of_mem _ member)) _

end Walk

/-! ## Whole paths -/

namespace Path

variable {path : Path} {first second : Globals}

theorem items?_resolve_eq_of_agree (agree : Globals.AgreeOn path.variableNames first second)
    (written : Globals.WriteAlike path.filterVariables first second) (catalog : Catalog)
    (body : Value) :
    (path.resolve first).path.items? catalog body =
      (path.resolve second).path.items? catalog body := by
  have same (component : Component) (member : component ∈ path.components) (place : Walk.Place) :
      Walk.step catalog (first.component component) place =
        Walk.step catalog (second.component component) place := by
    apply Walk.step_eq_of_agree
    · exact agree.mono fun name read => mem_variableNames member read
    · intro name compared
      have isFilter := Option.mem_toList.mp compared
      exact written name (List.mem_filterMap.mpr ⟨component, member, isFilter⟩)
  simp only [items?, resolve, Walk.steps_map_eq same]

/-- No detected change among the variables of a path means that its strict resolution succeeds or
fails alike, with one error. Its items are the same in every message if the values that it compares
with are also written alike. -/
theorem resolve_eq_of_unchanged {shared : String → Bool} (keeps : Globals.Keeps shared first second)
    (unchanged : ∀ name ∈ path.variableNames,
      name ∉ Globals.changedNamesSharing shared first second) :
    failure? (path.resolveStrict first) = failure? (path.resolveStrict second) ∧
    (Globals.WriteAlike path.filterVariables first second → ∀ catalog body,
      (path.resolve first).path.items? catalog body =
        (path.resolve second).path.items? catalog body) := by
  have agree := Globals.agreeOn_of_unchanged keeps unchanged
  constructor
  · exact failure?_resolveStrict_eq_of_agree agree
  · intro written
    exact items?_resolve_eq_of_agree agree written

/-- A filter that compares text with a variable. -/
def textFilterPath : Path where
  source := "/t{s==$x}.s"
  topic := "/t"
  components := [.filter ⟨["s"], .reference "x" 6, "s==$x", 3, 6⟩, .name "s"]
  modifier := none

def textCatalog : Catalog :=
  .ofLists [("/t", "D")] [("D", ⟨[⟨"s", "string", false, false, none⟩]⟩)]

def withX (x : Number) : Globals :=
  .ofList [("x", .number x)]

def floatOne : Number :=
  .float (.ofInt 1)

def negativeZero : Number :=
  .float (.zero true)

/-- One in two forms, which are written alike. -/
theorem resolve_eq_of_unchanged_one :
    parse? "/t{s==$x}.s" = some textFilterPath ∧
    failure? (textFilterPath.resolveStrict (withX (.uint 1))) =
      failure? (textFilterPath.resolveStrict (withX floatOne)) ∧
    ∀ catalog body,
      (textFilterPath.resolve (withX (.uint 1))).path.items? catalog body =
        (textFilterPath.resolve (withX floatOne)).path.items? catalog body := by
  have keeps : Globals.Keeps (fun _ => false) (withX (.uint 1)) (withX floatOne) :=
    fun _ isShared => by cases isShared
  have unchanged : ∀ name ∈ textFilterPath.variableNames,
      name ∉ Globals.changedNamesSharing (fun _ => false) (withX (.uint 1)) (withX floatOne) := by
    decide +kernel
  have written : Globals.WriteAlike textFilterPath.filterVariables (withX (.uint 1))
      (withX floatOne) := by
    intro name member a b isFirst isSecond
    cases List.mem_singleton.mp member
    cases isFirst
    cases isSecond
    have digits : (Number.uint 1).toDecimal = floatOne.toDecimal := by decide +kernel
    exact digits
  obtain ⟨failures, items⟩ := resolve_eq_of_unchanged keeps unchanged
  exact ⟨rfl, failures, items written⟩

/-- Zero and negative zero are equal and written differently. A text finds one of them and not the
other one, though no change is detected between them. -/
theorem items?_resolve_ne_of_zeros :
    parse? "/t{s==$x}.s" = some textFilterPath ∧
    (∀ name ∈ textFilterPath.variableNames,
      name ∉ Globals.changedNames (withX (.uint 0)) (withX negativeZero)) ∧
    (textFilterPath.resolve (withX (.uint 0))).path.items? textCatalog
        (.object [("s", .string "0")]) ≠
      (textFilterPath.resolve (withX negativeZero)).path.items? textCatalog
        (.object [("s", .string "0")]) := by
  refine ⟨rfl, by decide +kernel, ?_⟩
  intro same
  have lengths := congrArg (Option.map List.length) same
  revert lengths
  decide +kernel

end Path

end MessageQuery
