import Mathlib.Data.List.Sort
import MessageQuery.Globals
import MessageQuery.Proofs.Equality

/-!
# Resolution under snapshots that agree

Two snapshots agree on a list of names if each name has alike values in both or in neither. A
strict resolution that succeeds is the lenient one. Whether it fails, and with which error, is the
same under snapshots that agree on the variables of the path, because alike values are the same
offset.
-/

namespace MessageQuery

/-- The cause of a failure, if there is one. -/
def failure? {ε α : Type} : Except ε α → Option ε
  | .ok _ => none
  | .error cause => some cause

theorem failure?_eq_some_iff {ε α : Type} {outcome : Except ε α} {cause : ε} :
    failure? outcome = some cause ↔ outcome = .error cause := by
  cases outcome <;> simp [failure?]

theorem failure?_mapM {ε α β : Type} (f : α → Except ε β) (items : List α) :
    failure? (items.mapM f) = items.findSome? fun item => failure? (f item) := by
  induction items with
  | nil => rfl
  | cons item rest ih =>
      rw [List.mapM_cons, List.findSome?_cons, ← ih]
      cases f item with
      | error cause => rfl
      | ok result => cases rest.mapM f <;> rfl

theorem findSome?_congr {α β : Type} {f g : α → Option β} {items : List α}
    (same : ∀ item ∈ items, f item = g item) : items.findSome? f = items.findSome? g := by
  induction items with
  | nil => rfl
  | cons item rest ih =>
      rw [List.findSome?_cons, List.findSome?_cons, same item List.mem_cons_self,
        ih fun later member => same later (List.mem_cons_of_mem _ member)]

theorem eq_map_of_mapM_eq_ok {ε α β : Type} {f : α → Except ε β} {g : α → β} {items : List α}
    {results : List β} (pointwise : ∀ item result, f item = .ok result → result = g item)
    (all : items.mapM f = .ok results) : results = items.map g := by
  induction items generalizing results with
  | nil => cases all; rfl
  | cons item rest ih =>
      rw [List.mapM_cons] at all
      cases head : f item with
      | error cause => rw [head] at all; cases all
      | ok result =>
          cases tail : rest.mapM f with
          | error cause => rw [head, tail] at all; cases all
          | ok later =>
              rw [head, tail] at all
              cases all
              rw [List.map_cons, pointwise item result head, ih tail]

/-- Sorted names depend only on which names there are. -/
theorem sortedNames_eq_of_mem_iff {names others : List String}
    (same : ∀ name, name ∈ names ↔ name ∈ others) : sortedNames names = sortedNames others := by
  have sorted : ∀ names : List String, (sortedNames names).Pairwise (· < ·) := by
    intro names
    rw [sortedNames, Dict.keys, List.pairwise_map]
    exact Dict.sorted _
  have irreflexive : Std.Irrefl (α := String) (· < ·) := ⟨String.lt_irrefl⟩
  have antisymmetric : Std.Antisymm (α := String) (· < ·) :=
    ⟨fun _ _ less greater => absurd greater (String.lt_asymm less)⟩
  apply (sorted names).eq_of_mem_iff (sorted others)
  intro name
  rw [mem_sortedNames, mem_sortedNames]
  exact same name

namespace Globals

/-! ## Agreement -/

def AgreeOn (names : List String) (first second : Globals) : Prop :=
  ∀ name ∈ names, Option.Rel Value.Alike (first.get? name) (second.get? name)

namespace AgreeOn

theorem refl (names : List String) (globals : Globals) : AgreeOn names globals globals := by
  intro name _
  cases globals.get? name with
  | none => exact .none
  | some value => exact .some (.inl rfl)

theorem trans {names : List String} {first second third : Globals}
    (early : AgreeOn names first second) (late : AgreeOn names second third) :
    AgreeOn names first third := by
  intro name member
  have left := early name member
  have right := late name member
  generalize first.get? name = a at left
  generalize second.get? name = b at left right
  generalize third.get? name = c at right
  cases left with
  | none => cases right; exact .none
  | some alike => cases right with
    | some later => exact .some (alike.trans later)

theorem of_eq {names : List String} {first second : Globals}
    (same : ∀ name ∈ names, first.get? name = second.get? name) : AgreeOn names first second := by
  intro name member
  rw [same name member]
  exact refl names second name member

theorem mono {few many : List String} {first second : Globals} (agree : AgreeOn many first second)
    (subset : ∀ name ∈ few, name ∈ many) : AgreeOn few first second :=
  fun name member => agree name (subset name member)

end AgreeOn

/-- The names that both snapshots share have one value in them. -/
def Keeps (shared : String → Bool) (old new : Globals) : Prop :=
  ∀ name, shared name = true →
    ∀ before after, old.get? name = some before → new.get? name = some after → after = before

theorem agreeOn_of_unchanged {shared : String → Bool} {old new : Globals} {names : List String}
    (keeps : Keeps shared old new)
    (unchanged : ∀ name ∈ names, name ∉ changedNamesSharing shared old new) :
    AgreeOn names old new := by
  intro name member
  have same := unchanged name member
  rw [mem_changedNamesSharing, Bool.not_eq_true] at same
  unfold differsSharing at same
  cases inOld : old.get? name with
  | none =>
      cases inNew : new.get? name with
      | none => exact .none
      | some after => rw [inOld, inNew] at same; cases same
  | some before =>
      cases inNew : new.get? name with
      | none => rw [inOld, inNew] at same; cases same
      | some after =>
          rw [inOld, inNew] at same
          dsimp only at same
          split at same
          · next isShared =>
              exact .some (.inl (keeps name isShared before after inOld inNew).symm)
          · exact .some (.inr (by simpa using same))

/-! ## Offsets and bounds -/

theorem bind_asOffset?_eq {first second : Option Value}
    (related : Option.Rel Value.Alike first second) :
    first.bind Value.asOffset? = second.bind Value.asOffset? := by
  cases related with
  | none => rfl
  | some alike => exact alike.asOffset?_eq

theorem offset_eq_of_agree {first second : Globals} {operand : Path.Operand}
    (agree : AgreeOn operand.variable?.toList first second) :
    first.offset operand = second.offset operand := by
  cases operand with
  | literal value => rfl
  | reference name position =>
      have related := agree name List.mem_cons_self
      simp only [offset, bind_asOffset?_eq related]

theorem offset_eq_of_agree_operands {first second : Globals} {operand : Path.Operand}
    (agree : AgreeOn ([operand].filterMap Path.Operand.variable?) first second) :
    first.offset operand = second.offset operand :=
  offset_eq_of_agree (agree.mono fun name member => by simpa using member)

theorem strictBound?_eq_of_agree {first second : Globals} {bound : Option Path.Operand}
    (agree : AgreeOn (bound.toList.filterMap Path.Operand.variable?) first second) :
    first.strictBound? bound = second.strictBound? bound := by
  cases bound with
  | none => rfl
  | some operand =>
      exact congrArg (Except.map some) (offset_eq_of_agree_operands agree)

theorem map_start_eq_of_agree {first second : Globals} {bound : Option Path.Operand}
    (agree : AgreeOn (bound.toList.filterMap Path.Operand.variable?) first second) :
    bound.map first.start = bound.map second.start := by
  cases bound with
  | none => rfl
  | some operand =>
      have same : first.offset operand = second.offset operand := offset_eq_of_agree_operands agree
      simp only [Option.map_some, start, same]

theorem bind_stop?_eq_of_agree {first second : Globals} {bound : Option Path.Operand}
    (agree : AgreeOn (bound.toList.filterMap Path.Operand.variable?) first second) :
    bound.bind first.stop? = bound.bind second.stop? := by
  cases bound with
  | none => rfl
  | some operand =>
      have same : first.offset operand = second.offset operand := offset_eq_of_agree_operands agree
      simp only [Option.bind_some, stop?, same]

/-! ## Components -/

/-- Bounds are resolved alike. -/
theorem component_eq_of_agree {first second : Globals} {component : Path.Component}
    (agree : AgreeOn (component.operands.filterMap Path.Operand.variable?) first second)
    (filters : ∀ f, component = .filter f → first.filter f = second.filter f) :
    first.component component = second.component component := by
  cases component with
  | name name => rfl
  | index operand =>
      have same : first.offset operand = second.offset operand := offset_eq_of_agree_operands agree
      simp only [Globals.component, same]
  | slice start stop =>
      have starts : start.map first.start = start.map second.start :=
        map_start_eq_of_agree (agree.mono fun name member => by
          rw [Path.Component.operands, List.filterMap_append]
          exact List.mem_append_left _ member)
      have stops : stop.bind first.stop? = stop.bind second.stop? :=
        bind_stop?_eq_of_agree (agree.mono fun name member => by
          rw [Path.Component.operands, List.filterMap_append]
          exact List.mem_append_right _ member)
      simp only [Globals.component, starts, stops]
  | filter f => exact congrArg Path.Component.filter (filters f rfl)

theorem filter_eq_of_same {first second : Globals} {f : Path.Filter}
    (same : ∀ name ∈ f.value.variable?, first.get? name = second.get? name) :
    first.filter f = second.filter f := by
  cases value : f.value with
  | literal expected => simp only [filter, filterValue, value]
  | reference name position =>
      have found : first.get? name = second.get? name := same name (by rw [value]; rfl)
      simp only [filter, filterValue, value, found]

/-- Filter values may differ in form, so the components need not be equal; their failures are. -/
theorem failure?_strictComponent_eq_of_agree {first second : Globals}
    {component : Path.Component}
    (agree : AgreeOn (component.operands.filterMap Path.Operand.variable?) first second) :
    failure? (first.strictComponent component) = failure? (second.strictComponent component) := by
  cases component with
  | name name => rfl
  | index operand =>
      have same : first.offset operand = second.offset operand := offset_eq_of_agree_operands agree
      exact congrArg (fun outcome => failure? (Except.map Path.Component.index outcome)) same
  | slice start stop =>
      have starts : first.strictBound? start = second.strictBound? start :=
        strictBound?_eq_of_agree (agree.mono fun name member => by
          rw [Path.Component.operands, List.filterMap_append]
          exact List.mem_append_left _ member)
      have stops : first.strictBound? stop = second.strictBound? stop :=
        strictBound?_eq_of_agree (agree.mono fun name member => by
          rw [Path.Component.operands, List.filterMap_append]
          exact List.mem_append_right _ member)
      simp only [strictComponent, starts, stops]
  | filter f => rfl

/-! ## Strict and lenient resolution -/

theorem start_of_strictBound? {globals : Globals} {bound resolved : Option Path.Operand}
    (succeeds : globals.strictBound? bound = .ok resolved) :
    resolved = bound.map globals.start := by
  cases bound with
  | none => cases succeeds; rfl
  | some operand =>
      cases found : globals.offset operand with
      | error name => simp [strictBound?, found, Except.map] at succeeds
      | ok offset =>
          simp only [strictBound?, found, Except.map, Except.ok.injEq] at succeeds
          simp only [Option.map_some, start, found, succeeds]

theorem stop_of_strictBound? {globals : Globals} {bound resolved : Option Path.Operand}
    (succeeds : globals.strictBound? bound = .ok resolved) :
    resolved = bound.bind globals.stop? := by
  cases bound with
  | none => cases succeeds; rfl
  | some operand =>
      cases found : globals.offset operand with
      | error name => simp [strictBound?, found, Except.map] at succeeds
      | ok offset =>
          simp only [strictBound?, found, Except.map, Except.ok.injEq] at succeeds
          simp only [Option.bind_some, stop?, found, Except.toOption, succeeds]

theorem component_of_strictComponent {globals : Globals} (component resolved : Path.Component)
    (succeeds : globals.strictComponent component = .ok resolved) :
    resolved = globals.component component := by
  cases component with
  | name name => cases succeeds; rfl
  | index operand =>
      cases found : globals.offset operand with
      | error name => simp [strictComponent, found, Except.map] at succeeds
      | ok offset =>
          simp only [strictComponent, found, Except.map, Except.ok.injEq] at succeeds
          simp only [Globals.component, found, succeeds]
  | slice start stop =>
      cases starts : globals.strictBound? start with
      | error name => simp [strictComponent, starts, bind, Except.bind] at succeeds
      | ok first =>
          cases stops : globals.strictBound? stop with
          | error name => simp [strictComponent, starts, stops, bind, Except.bind] at succeeds
          | ok last =>
              simp only [strictComponent, starts, stops, bind, Except.bind, pure, Except.pure,
                Except.ok.injEq] at succeeds
              rw [← succeeds, start_of_strictBound? starts, stop_of_strictBound? stops]
              rfl
  | filter f => cases succeeds; rfl

end Globals

/-! ## Whole paths -/

namespace Path

theorem mem_variableNames {path : Path} {component : Component} {name : String}
    (member : component ∈ path.components)
    (read : name ∈ component.operands.filterMap Operand.variable?) :
    name ∈ path.variableNames := by
  rw [variableNames, mem_sortedNames]
  obtain ⟨operand, operandMember, found⟩ := List.mem_filterMap.mp read
  exact List.mem_filterMap.mpr
    ⟨operand, List.mem_flatMap.mpr ⟨component, member, operandMember⟩, found⟩

/-- A strict resolution gives what a lenient one gives, if it succeeds. -/
theorem resolve_of_resolveStrict {path : Path} {globals : Globals} {resolved : Resolved}
    (succeeds : path.resolveStrict globals = .ok resolved) : resolved = path.resolve globals := by
  unfold resolveStrict at succeeds
  split at succeeds
  · next components all =>
      have mapped := eq_map_of_mapM_eq_ok Globals.component_of_strictComponent all
      cases succeeds
      rw [resolve, mapped]
  · cases succeeds

theorem failure?_resolveStrict (path : Path) (globals : Globals) :
    failure? (path.resolveStrict globals) =
      (path.components.findSome? fun component =>
        failure? (globals.strictComponent component)).map
          fun name => .nonNumericSliceBound name path.source := by
  rw [← failure?_mapM]
  unfold resolveStrict
  cases path.components.mapM globals.strictComponent <;> rfl

/-- Snapshots that agree on the variables of a path make its strict resolution fail alike. -/
theorem failure?_resolveStrict_eq_of_agree {path : Path} {first second : Globals}
    (agree : Globals.AgreeOn path.variableNames first second) :
    failure? (path.resolveStrict first) = failure? (path.resolveStrict second) := by
  rw [failure?_resolveStrict, failure?_resolveStrict]
  congr 1
  refine findSome?_congr fun component member => ?_
  exact Globals.failure?_strictComponent_eq_of_agree
    (agree.mono fun name read => mem_variableNames member read)

/-- Snapshots that have the same values for the variables of a path resolve it alike. -/
theorem resolve_eq_of_same {path : Path} {first second : Globals}
    (same : ∀ name ∈ path.variableNames, first.get? name = second.get? name) :
    path.resolve first = path.resolve second := by
  have components : path.components.map first.component = path.components.map second.component := by
    apply List.map_congr_left
    intro component member
    apply Globals.component_eq_of_agree
    · exact .of_eq fun name read => same name (mem_variableNames member read)
    · rintro f rfl
      apply Globals.filter_eq_of_same
      intro name compared
      exact same name (mem_variableNames member (by simpa [Component.operands] using compared))
  unfold resolve
  rw [components]

theorem resolveStrict_eq_of_same {path : Path} {first second : Globals}
    (same : ∀ name ∈ path.variableNames, first.get? name = second.get? name) :
    path.resolveStrict first = path.resolveStrict second := by
  have failures := failure?_resolveStrict_eq_of_agree (.of_eq same)
  cases early : path.resolveStrict first with
  | error cause =>
      rw [early] at failures
      exact (failure?_eq_some_iff.mp failures.symm).symm
  | ok resolved =>
      cases late : path.resolveStrict second with
      | error cause =>
          rw [early, late] at failures
          cases failures
      | ok other =>
          rw [resolve_of_resolveStrict early, resolve_of_resolveStrict late,
            resolve_eq_of_same same]

end Path

end MessageQuery
