import Mathlib.Logic.Basic
import MessageQuery.Path.Parser
import MessageQuery.Proofs.Bounds

/-!
# Strict and lenient resolution

Strict and lenient resolution are one procedure in two modes. It goes through the components from
left to right, and through a slice from its start to its stop. At a bound whose variable has no
integer the strict mode fails and the lenient one goes on, so the lenient mode has no failure. The
strict mode succeeds exactly if all variables among the bounds have integers, and then the modes
agree.
-/

namespace MessageQuery

/-! ## One procedure -/

namespace Globals

open Path (Component Operand)

/-- Where a variable has no integer, the strict mode fails and the lenient one takes the value that
is given. -/
def settle {α : Type} (strict : Bool) (instead : α) : Except String α → Except String α
  | .ok resolved => .ok resolved
  | .error name => if strict then .error name else .ok instead

def boundIn (globals : Globals) (strict : Bool) (instead : Option Operand) :
    Option Operand → Except String (Option Operand)
  | none => .ok none
  | some operand => settle strict instead ((globals.offset operand).map some)

def componentIn (globals : Globals) (strict : Bool) : Component → Except String Component
  | .name name => .ok (.name name)
  | .index operand =>
      settle strict (.slice (some firstElement) none) ((globals.offset operand).map .index)
  | .slice start stop => do
      return .slice (← globals.boundIn strict (some firstElement) start)
        (← globals.boundIn strict none stop)
  | .filter f => .ok (.filter (globals.filter f))

theorem settle_strict {α : Type} (instead : α) (outcome : Except String α) :
    settle true instead outcome = outcome := by
  cases outcome <;> rfl

theorem boundIn_strict (globals : Globals) (instead bound : Option Operand) :
    globals.boundIn true instead bound = globals.strictBound? bound := by
  cases bound with
  | none => rfl
  | some operand => exact settle_strict _ _

theorem componentIn_strict (globals : Globals) (component : Component) :
    globals.componentIn true component = globals.strictComponent component := by
  cases component with
  | name name => rfl
  | index operand => exact settle_strict _ _
  | slice start stop => simp only [componentIn, strictComponent, boundIn_strict]
  | filter f => rfl

theorem boundIn_lenient_start (globals : Globals) (bound : Option Operand) :
    globals.boundIn false (some firstElement) bound = .ok (bound.map globals.start) := by
  cases bound with
  | none => rfl
  | some operand =>
      rw [boundIn, Option.map_some, start]
      cases globals.offset operand <;> rfl

theorem boundIn_lenient_stop (globals : Globals) (bound : Option Operand) :
    globals.boundIn false none bound = .ok (bound.bind globals.stop?) := by
  cases bound with
  | none => rfl
  | some operand =>
      rw [boundIn, Option.bind_some, stop?]
      cases globals.offset operand <;> rfl

theorem componentIn_lenient (globals : Globals) (component : Component) :
    globals.componentIn false component = .ok (globals.component component) := by
  cases component with
  | name name => rfl
  | index operand =>
      rw [componentIn, Globals.component]
      cases globals.offset operand <;> rfl
  | slice start stop =>
      rw [componentIn, boundIn_lenient_start, boundIn_lenient_stop]
      rfl
  | filter f => rfl

end Globals

namespace Path

def resolveIn (path : Path) (strict : Bool) (globals : Globals) : Except QueryError Resolved :=
  match path.components.mapM (globals.componentIn strict) with
  | .ok components => .ok ⟨{ path with components }, path.variableNames⟩
  | .error name => .error (.nonNumericSliceBound name path.source)

theorem resolveIn_strict (path : Path) (globals : Globals) :
    path.resolveIn true globals = path.resolveStrict globals := by
  rw [resolveIn, funext globals.componentIn_strict]
  rfl

/-- The lenient mode reaches no failure. -/
theorem resolveIn_lenient (path : Path) (globals : Globals) :
    path.resolveIn false globals = .ok (path.resolve globals) := by
  have all : path.components.mapM (globals.componentIn false) =
      .ok (path.components.map globals.component) := by
    rw [funext globals.componentIn_lenient]
    exact List.mapM_pure
  rw [resolveIn, all]
  rfl

/-! ## Success and failure -/

variable {path : Path} {globals other : Globals}

/-- A strict resolution is the lenient one unless it fails. -/
theorem resolveStrict_eq (path : Path) (globals : Globals) :
    path.resolveStrict globals =
      match failure? (path.resolveStrict globals) with
      | none => .ok (path.resolve globals)
      | some error => .error error := by
  cases outcome : path.resolveStrict globals with
  | error cause => rfl
  | ok resolved => exact congrArg Except.ok (resolve_of_resolveStrict outcome)

theorem failure?_resolveStrict_eq_none_iff :
    failure? (path.resolveStrict globals) = none ↔
      ∀ name ∈ path.boundNames, ¬globals.LacksInteger name := by
  rw [failure?_resolveStrict]
  simp only [Globals.failure?_strictComponent, ← find?_boundNames, Option.map_eq_none_iff,
    List.find?_eq_none, Globals.lacksOffset_iff]

theorem resolveStrict_eq_ok_iff {resolved : Resolved} :
    path.resolveStrict globals = .ok resolved ↔
      (∀ name ∈ path.boundNames, ¬globals.LacksInteger name) ∧
        resolved = path.resolve globals := by
  rw [← failure?_resolveStrict_eq_none_iff, resolveStrict_eq]
  cases failure? (path.resolveStrict globals) with
  | none => simp [failure?, eq_comm]
  | some error => simp [failure?]

/-- Only the variables among the bounds can make a strict resolution fail. -/
theorem resolveStrict_eq_error_of_bounds
    (same : ∀ name ∈ path.boundNames, globals.get? name = other.get? name) {error : QueryError}
    (fails : path.resolveStrict globals = .error error) :
    path.resolveStrict other = .error error := by
  obtain ⟨name, isFirst, isError⟩ := resolveStrict_eq_error_iff.mp fails
  have lacks : ∀ name ∈ path.boundNames, globals.LacksInteger name ↔ other.LacksInteger name := by
    intro name member
    rw [Globals.LacksInteger, Globals.LacksInteger, same name member]
  exact resolveStrict_eq_error_iff.mpr ⟨name, isFirst.congr lacks, isError⟩

/-- A strict resolution succeeds exactly if every variable among the bounds has an integer, and
then it gives what the lenient one gives. Otherwise it names the text of the path and the first
bound, from left to right, whose variable has none. The values of other variables, those of filters
among them, make no difference to its failure. The two are one procedure in two modes, and in the
lenient mode that procedure has no failure. -/
theorem strict_resolution_agrees (path : Path) (globals : Globals) :
    (∀ resolved, path.resolveStrict globals = .ok resolved ↔
      (∀ name ∈ path.boundNames, ∃ value a, globals.get? name = some value ∧ value.Denotes a) ∧
        resolved = path.resolve globals) ∧
    (∀ error, path.resolveStrict globals = .error error ↔
      ∃ name, IsFirst globals.LacksInteger path.boundNames name ∧
        error = .nonNumericSliceBound name path.source) ∧
    (∀ other, (∀ name ∈ path.boundNames, globals.get? name = other.get? name) →
      ∀ error, path.resolveStrict globals = .error error ↔
        path.resolveStrict other = .error error) ∧
    path.resolveIn true globals = path.resolveStrict globals ∧
    path.resolveIn false globals = .ok (path.resolve globals) := by
  refine ⟨fun resolved => ?_, fun error => resolveStrict_eq_error_iff, fun other same error => ?_,
    path.resolveIn_strict globals, path.resolveIn_lenient globals⟩
  · rw [resolveStrict_eq_ok_iff]
    simp only [Globals.LacksInteger, not_forall, not_not, exists_prop]
  · constructor
    · exact resolveStrict_eq_error_of_bounds same
    · exact resolveStrict_eq_error_of_bounds fun name member => (same name member).symm

/-- A slice between two variables, and a filter with a third one. -/
def boundsPath : Path where
  source := "/a[$i:$j]{x==$k}"
  topic := "/a"
  components :=
    [.slice (some (.reference "i" 3)) (some (.reference "j" 6)),
      .filter ⟨["x"], .reference "k" 13, "x==$k", 10, 13⟩]
  modifier := none

/-- The first variable spells an integer, and the last one is missing. -/
def spelledStart (stop : Value) : Globals :=
  .ofList [("i", .string "3.0"), ("j", stop)]

/-- No integer stops the resolution at the second bound; an integer beyond every word does not. -/
theorem strict_resolution_agrees_bounds :
    parse? "/a[$i:$j]{x==$k}" = some boundsPath ∧
    boundsPath.resolveStrict (spelledStart .null) =
      .error (.nonNumericSliceBound "j" "/a[$i:$j]{x==$k}") ∧
    boundsPath.resolveStrict ((spelledStart .null).insert "k" (.ofInt 1)) =
      .error (.nonNumericSliceBound "j" "/a[$i:$j]{x==$k}") ∧
    boundsPath.resolveStrict (spelledStart (.ofInt 1000000000000000000000)) =
      .ok (boundsPath.resolve (spelledStart (.ofInt 1000000000000000000000))) := by
  have spells : Number.parse? "3.0".toList = some (.float (.ofInt 3)) := by decide +kernel
  have start : Value.Denotes (.string "3.0") 3 := .text spells (by decide +kernel)
  have stop : Value.Denotes (.ofInt 1000000000000000000000) 1000000000000000000000 :=
    .number (Number.toInt?_ofInt _)
  obtain ⟨_, fails, other, _⟩ := strict_resolution_agrees boundsPath (spelledStart .null)
  obtain ⟨succeeds, _⟩ :=
    strict_resolution_agrees boundsPath (spelledStart (.ofInt 1000000000000000000000))
  have stopFails : boundsPath.resolveStrict (spelledStart .null) =
      .error (.nonNumericSliceBound "j" "/a[$i:$j]{x==$k}") := by
    refine (fails _).mpr ⟨"j", ⟨?_, ["i"], [], rfl, ?_⟩, rfl⟩
    · intro value a found denotes
      cases found
      cases denotes
    · intro name member lacks
      cases List.mem_singleton.mp member
      exact lacks _ 3 rfl start
  have same : ∀ name ∈ boundsPath.boundNames,
      (spelledStart .null).get? name = ((spelledStart .null).insert "k" (.ofInt 1)).get? name := by
    intro name member
    rw [Dict.get?_insert, if_neg]
    rintro rfl
    revert member
    decide
  refine ⟨rfl, stopFails, (other _ same _).mp stopFails, (succeeds _).mpr ⟨?_, rfl⟩⟩
  intro name member
  rcases List.mem_cons.mp member with rfl | later
  · exact ⟨_, 3, rfl, start⟩
  · cases List.mem_singleton.mp later
    exact ⟨_, _, rfl, stop⟩

end Path

end MessageQuery
