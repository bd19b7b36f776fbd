import MessageQuery.Proofs.Cache.Frame
import MessageQuery.Proofs.Quantity

/-!
# Changes from snapshot to snapshot

A name changes from one snapshot of the globals to another if only one of them has it, or if they
tell its values apart. Values are told apart unless they are equal or one instance; a number has no
instance, so NaN is told apart from itself. Not being told apart is symmetric and transitive, so
changes go both ways, and what has changed in the end has changed at some step: a value that
differs between two states of a run was found changed by an operation between them.
-/

namespace MessageQuery

/-- Values that are not told apart: equal ones, and one instance of anything but a number. -/
def Value.SameAs (oneInstance : Bool) (first second : Value) : Prop :=
  first.equal second = true ∨ oneInstance = true ∧ first = second ∧ ∀ n, first ≠ .number n

namespace Value.SameAs

variable {first second third : Value} {oneInstance still : Bool}

theorem symm (same : first.SameAs oneInstance second) : second.SameAs oneInstance first := by
  rcases same with equal | ⟨isOne, rfl, noNumber⟩
  · exact .inl (equal_symm equal)
  · exact .inr ⟨isOne, rfl, noNumber⟩

theorem trans (early : first.SameAs oneInstance second) (late : second.SameAs still third) :
    first.SameAs (oneInstance && still) third := by
  rcases early with equal | ⟨isOne, rfl, noNumber⟩
  · rcases late with later | ⟨_, rfl, _⟩
    · exact .inl (equal_trans equal later)
    · exact .inl equal
  · rcases late with later | ⟨isStill, rfl, _⟩
    · exact .inl later
    · exact .inr ⟨(Bool.and_eq_true _ _).mpr ⟨isOne, isStill⟩, rfl, noNumber⟩

/-- What is not told apart from something is not told apart from itself. -/
theorem sameInstanceEqual (same : first.SameAs oneInstance second) :
    second.sameInstanceEqual = true := by
  rcases same with equal | ⟨_, rfl, noNumber⟩
  · have itself := equal_trans (equal_symm equal) equal
    cases second with
    | number n => exact itself
    | _ => rfl
  · cases first with
    | number n => exact absurd rfl (noNumber n)
    | _ => rfl

end Value.SameAs

namespace Globals

variable {shared : String → Bool} {a b c : Globals} {name : String}

/-- A name is unchanged if neither snapshot has it, or both do and do not tell its values apart. -/
def Unchanged (oneInstance : Bool) (a b : Globals) (name : String) : Prop :=
  Option.Rel (Value.SameAs oneInstance) (a.get? name) (b.get? name)

theorem unchanged_of_not_mem (keeps : Keeps shared a b)
    (absent : name ∉ a.changedNamesSharing shared b) : Unchanged (shared name) a b name := by
  rw [mem_changedNamesSharing, Bool.not_eq_true, differsSharing] at absent
  unfold Unchanged
  cases inA : a.get? name with
  | none =>
      cases inB : b.get? name with
      | none => exact .none
      | some after => rw [inA, inB] at absent; cases absent
  | some before =>
      cases inB : b.get? name with
      | none => rw [inA, inB] at absent; cases absent
      | some after =>
          rw [inA, inB] at absent
          dsimp only at absent
          apply Option.Rel.some
          split at absent
          · next isShared =>
              obtain rfl := keeps name isShared before after inA inB
              cases after with
              | number n => exact .inl ((Bool.not_eq_false' _).mp absent)
              | _ =>
                  refine .inr ⟨isShared, rfl, ?_⟩
                  intro n isNumber
                  cases isNumber
          · exact .inl ((Bool.not_eq_false' _).mp absent)

theorem Unchanged.contains_eq {oneInstance : Bool} (unchanged : Unchanged oneInstance a b name) :
    b.contains name = a.contains name := by
  unfold Unchanged at unchanged
  unfold Dict.contains
  generalize a.get? name = x at unchanged ⊢
  generalize b.get? name = y at unchanged ⊢
  cases unchanged <;> rfl

/-- An instance that was kept is among the shared ones; there may be more of them. -/
theorem not_mem_of_unchanged {oneInstance : Bool} (unchanged : Unchanged oneInstance a b name)
    (isShared : a.contains name = true → oneInstance = true → shared name = true) :
    name ∉ a.changedNamesSharing shared b := by
  rw [mem_changedNamesSharing, Bool.not_eq_true, differsSharing]
  unfold Unchanged at unchanged
  unfold Dict.contains at isShared
  generalize a.get? name = x at unchanged isShared
  generalize b.get? name = y at unchanged
  cases unchanged with
  | none => rfl
  | some same =>
      dsimp only
      split
      · rw [same.sameInstanceEqual, Bool.not_true]
      · next notShared =>
          rcases same with equal | ⟨isOne, _⟩
          · rw [equal, Bool.not_true]
          · exact absurd (isShared rfl isOne) notShared

theorem mem_changedNamesSharing_iff (keeps : Keeps shared a b) :
    name ∈ a.changedNamesSharing shared b ↔ ¬Unchanged (shared name) a b name :=
  ⟨fun member unchanged => not_mem_of_unchanged unchanged (fun _ => id) member,
    fun changed => Decidable.not_not.mp fun absent => changed (unchanged_of_not_mem keeps absent)⟩

theorem not_unchanged_iff {oneInstance : Bool} :
    ¬Unchanged oneInstance a b name ↔
      a.contains name ≠ b.contains name ∨
        ∃ before after, a.get? name = some before ∧ b.get? name = some after ∧
          ¬before.SameAs oneInstance after := by
  unfold Unchanged Dict.contains
  cases inA : a.get? name with
  | none => cases b.get? name <;> simp
  | some before =>
      cases inB : b.get? name <;> simp

theorem Unchanged.symm {oneInstance : Bool} (unchanged : Unchanged oneInstance a b name) :
    Unchanged oneInstance b a name := by
  unfold Unchanged at unchanged ⊢
  generalize a.get? name = x at unchanged
  generalize b.get? name = y at unchanged
  cases unchanged with
  | none => exact .none
  | some same => exact .some same.symm

theorem Unchanged.trans {oneInstance still : Bool} (early : Unchanged oneInstance a b name)
    (late : Unchanged still b c name) : Unchanged (oneInstance && still) a c name := by
  unfold Unchanged at early late ⊢
  generalize a.get? name = x at early
  generalize b.get? name = y at early late
  generalize c.get? name = z at late
  cases early with
  | none => cases late; exact .none
  | some same => cases late with
    | some later => exact .some (same.trans later)

theorem Keeps.symm (keeps : Keeps shared a b) : Keeps shared b a :=
  fun name isShared before after inB inA => (keeps name isShared after before inA inB).symm

theorem changedNamesSharing_comm (keeps : Keeps shared a b) :
    a.changedNamesSharing shared b = b.changedNamesSharing shared a := by
  have sameNames : sortedNames (a.keys ++ b.keys) = sortedNames (b.keys ++ a.keys) :=
    sortedNames_eq_of_mem_iff fun name => by rw [List.mem_append, List.mem_append, or_comm]
  unfold changedNamesSharing
  rw [sameNames]
  apply List.filter_congr
  intro name _
  rw [Bool.eq_iff_iff, ← mem_changedNamesSharing, ← mem_changedNamesSharing,
    mem_changedNamesSharing_iff keeps, mem_changedNamesSharing_iff keeps.symm]
  exact not_congr ⟨Unchanged.symm, Unchanged.symm⟩

/-- A comparison that knows of every instance that was kept twice finds no other changes than the
two comparisons before it. -/
theorem mem_changedNamesSharing_trans {early late whole : String → Bool}
    (before : Keeps early a b) (after : Keeps late b c)
    (twice : early name = true → late name = true → whole name = true)
    (changed : name ∈ a.changedNamesSharing whole c) :
    name ∈ a.changedNamesSharing early b ∨ name ∈ b.changedNamesSharing late c := by
  by_contra absent
  obtain ⟨notEarly, notLate⟩ := not_or.mp absent
  have unchanged := (unchanged_of_not_mem before notEarly).trans
    (unchanged_of_not_mem after notLate)
  refine not_mem_of_unchanged unchanged ?_ changed
  intro _ both
  obtain ⟨isEarly, isLate⟩ := (Bool.and_eq_true _ _).mp both
  exact twice isEarly isLate

end Globals

/-! ## Runs -/

/-- The operations that bring in a snapshot. -/
def Operation.SetsGlobals : Operation → Prop
  | .setGlobals _ _ | .setGlobal _ _ => True
  | _ => False

/-- Whether the variable still holds the instance that it held, if it holds anything. -/
def Operation.retains (name : String) : Operation → Bool
  | .setGlobals shared _ => shared name
  | .setGlobal other _ => name != other
  | _ => true

theorem Operation.retains_of_not_setsGlobals {operation : Operation}
    (plain : ¬operation.SetsGlobals) (name : String) : operation.retains name = true := by
  cases operation with
  | setGlobals shared globals => exact absurd trivial plain
  | setGlobal other value => exact absurd trivial plain
  | _ => rfl

namespace Host

variable {host first last : Host} {operation : Operation} {operations : List Operation}
  {name : String}

/-- The names that the operation finds changed. -/
def changes (host : Host) : Operation → List String
  | .setGlobals shared globals => host.cache.globals.changedNamesSharing shared globals
  | .setGlobal name value =>
      host.cache.globals.changedNamesSharing (fun other => other != name)
        (host.cache.globals.insert name value)
  | _ => []

/-- Some operation of the list finds the name changed, where it is performed. -/
def FindsChanged (name : String) : Host → List Operation → Prop
  | _, [] => False
  | host, operation :: rest =>
      name ∈ host.changes operation ∨ FindsChanged name (host.perform operation) rest

/-- The variable is there all along, as the instance that it was at first. -/
def KeepsInstance (name : String) : Host → List Operation → Prop
  | host, [] => host.cache.globals.contains name = true
  | host, operation :: rest =>
      host.cache.globals.contains name = true ∧ operation.retains name = true ∧
        KeepsInstance name (host.perform operation) rest

theorem globals_perform (plain : ¬operation.SetsGlobals) :
    (host.perform operation).cache.globals = host.cache.globals := by
  cases operation with
  | setPaths texts =>
      simp only [perform, withCache, Cache.setPaths]
      split <;> rfl
  | setRegistry registry =>
      simp only [perform, withCache, Cache.setRegistry]
      split <;> rfl
  | setGlobals shared globals => exact absurd trivial plain
  | setGlobal name value => exact absurd trivial plain
  | setStrict strict =>
      simp only [perform, withCache, Cache.setStrict]
      split <;> rfl
  | setOptions options =>
      simp only [perform, withCache, Cache.setOptions, Cache.setStrict]
      split <;> rfl
  | invalidate path =>
      simp only [perform, withCache, Cache.invalidate]
      split <;> rfl
  | invalidateByVariable name =>
      simp only [perform, withCache, Cache.invalidateByVariable, Cache.invalidateWhere]
      split <;> rfl
  | get path message => exact (Cache.sameSettings_get _ _ _ _).globals
  | decode messages =>
      apply Cache.decode_preserves fun after => after.globals = host.cache.globals
      · intro after path topic chosen message _ _ same
        exact (Cache.sameSettings_get _ _ _ after).globals.trans same
      · intro after same
        exact same
      · rfl
  | _ => rfl

/-- What one operation that brings in a snapshot does not find changed is unchanged by it. -/
theorem unchanged_perform (permitted : host.Permits operation) (sets : operation.SetsGlobals)
    (absent : name ∉ host.changes operation) :
    Globals.Unchanged (operation.retains name) host.cache.globals
      (host.perform operation).cache.globals name := by
  cases operation with
  | setGlobals shared globals =>
      have stored : (host.perform (.setGlobals shared globals)).cache.globals = globals :=
        Cache.globals_replaceGlobals _ _ _
      rw [stored]
      exact Globals.unchanged_of_not_mem permitted absent
  | setGlobal other value =>
      have stored : (host.perform (.setGlobal other value)).cache.globals =
          host.cache.globals.insert other value := Cache.globals_replaceGlobals _ _ _
      rw [stored]
      exact Globals.unchanged_of_not_mem (Globals.keeps_insert _ _ _) absent
  | _ => exact absurd sets id

/-- Before the first snapshot that is brought in nothing happens to the globals; from then on what
was unchanged up to one operation and is not found changed by it is unchanged up to the next. -/
theorem Run.unchanged (run : Run first operations last)
    (absent : ¬FindsChanged name first operations) :
    (∀ operation ∈ operations, ¬operation.SetsGlobals) ∧
        last.cache.globals = first.cache.globals ∨
      Globals.Unchanged (operations.all (Operation.retains name)) first.cache.globals
        last.cache.globals name := by
  induction run with
  | nil host => exact .inl ⟨nofun, rfl⟩
  | @cons host last operation rest permitted later ih =>
      obtain ⟨notHere, notLater⟩ := not_or.mp absent
      rw [List.all_cons]
      by_cases sets : operation.SetsGlobals
      · have here := unchanged_perform permitted sets notHere
        rcases ih notLater with ⟨plain, same⟩ | unchanged
        · right
          rw [same]
          have retained : rest.all (Operation.retains name) = true :=
            List.all_eq_true.mpr fun other member =>
              Operation.retains_of_not_setsGlobals (plain other member) name
          rw [retained, Bool.and_true]
          exact here
        · exact .inr (here.trans unchanged)
      · have same : (host.perform operation).cache.globals = host.cache.globals :=
          globals_perform sets
        rw [same] at ih
        rw [Operation.retains_of_not_setsGlobals sets, Bool.true_and]
        rcases ih notLater with ⟨plain, kept⟩ | unchanged
        · refine .inl ⟨?_, kept⟩
          intro other member
          rcases List.mem_cons.mp member with rfl | inRest
          · exact sets
          · exact plain other inRest
        · exact .inr unchanged

theorem Run.keepsInstance (run : Run first operations last)
    (absent : ¬FindsChanged name first operations)
    (present : first.cache.globals.contains name = true)
    (retained : operations.all (Operation.retains name) = true) :
    KeepsInstance name first operations := by
  induction run with
  | nil host => exact present
  | @cons host last operation rest permitted later ih =>
      obtain ⟨notHere, notLater⟩ := not_or.mp absent
      obtain ⟨here, onward⟩ := (Bool.and_eq_true _ _).mp retained
      refine ⟨present, here, ih notLater ?_ onward⟩
      by_cases sets : operation.SetsGlobals
      · rw [(unchanged_perform permitted sets notHere).contains_eq]
        exact present
      · rw [globals_perform sets]
        exact present

/-- Without a snapshot brought in between, only NaN differs, from itself. -/
theorem eq_nan_of_changed {globals : Globals} {shared : String → Bool}
    (isShared : globals.contains name = true → shared name = true)
    (changed : name ∈ globals.changedNamesSharing shared globals) :
    globals.get? name = some (.number (.float .nan)) := by
  by_contra noNaN
  refine (Globals.not_mem_changedNamesSharing_iff rfl).mpr ?_ changed
  intro value found
  have present : globals.contains name = true := by
    rw [Dict.contains, found]
    rfl
  rw [if_pos (isShared present)]
  rintro rfl
  exact noNaN found

/-- A name is found changed exactly if only one snapshot has it or they tell its values apart, in
either direction. What changes from the first snapshot to the third changes on the way. What
differs between two states of a run, with what was kept compared as one instance, was found changed
by an operation between them; if there was none that could, it is NaN. -/
theorem changes_compose :
    (∀ (shared : String → Bool) (a b : Globals), Globals.Keeps shared a b →
      (∀ name, name ∈ a.changedNamesSharing shared b ↔
        a.contains name ≠ b.contains name ∨
          ∃ before after, a.get? name = some before ∧ b.get? name = some after ∧
            ¬before.SameAs (shared name) after) ∧
      a.changedNamesSharing shared b = b.changedNamesSharing shared a) ∧
    (∀ (early late whole : String → Bool) (a b c : Globals), Globals.Keeps early a b →
      Globals.Keeps late b c →
      (∀ name, early name = true → late name = true → whole name = true) →
      ∀ name ∈ a.changedNamesSharing whole c,
        name ∈ a.changedNamesSharing early b ∨ name ∈ b.changedNamesSharing late c) ∧
    (∀ (first last : Host) (operations : List Operation) (whole : String → Bool),
      Run first operations last → (∀ name, KeepsInstance name first operations → whole name = true) →
      ∀ name ∈ first.cache.globals.changedNamesSharing whole last.cache.globals,
        FindsChanged name first operations ∨
          (∀ operation ∈ operations, ¬operation.SetsGlobals) ∧
            first.cache.globals.get? name = some (.number (.float .nan))) := by
  refine ⟨fun shared a b keeps => ⟨fun name => ?_, Globals.changedNamesSharing_comm keeps⟩, ?_, ?_⟩
  · exact (Globals.mem_changedNamesSharing_iff keeps).trans Globals.not_unchanged_iff
  · intro early late whole a b c before after twice name changed
    exact Globals.mem_changedNamesSharing_trans before after (twice name) changed
  · intro first last operations whole run kept name changed
    by_cases found : FindsChanged name first operations
    · exact .inl found
    · right
      have isWhole : first.cache.globals.contains name = true →
          operations.all (Operation.retains name) = true → whole name = true :=
        fun present retained => kept name (run.keepsInstance found present retained)
      rcases run.unchanged found with ⟨plain, same⟩ | unchanged
      · refine ⟨plain, ?_⟩
        rw [same] at changed
        refine eq_nan_of_changed (fun present => isWhole present ?_) changed
        exact List.all_eq_true.mpr fun operation member =>
          Operation.retains_of_not_setsGlobals (plain operation member) name
      · exact absurd changed (Globals.not_mem_of_unchanged unchanged isWhole)

theorem changes_compose_hostAt :
    "n" ∈ plainHost.cache.globals.changedNames (hostAt (.uint 0)).cache.globals ∧
    plainHost.cache.globals.changedNames (hostAt (.uint 0)).cache.globals =
      (hostAt (.uint 0)).cache.globals.changedNames plainHost.cache.globals ∧
    ("n" ∈ plainHost.cache.globals.changedNames (hostAt (.uint 1)).cache.globals ∨
      "n" ∈ (hostAt (.uint 1)).cache.globals.changedNames (hostAt (.uint 0)).cache.globals) ∧
    FindsChanged "n" plainHost [.setGlobal "n" (.number (.uint 0))] := by
  obtain ⟨compares, triangle, between⟩ := changes_compose
  have unshared (a b : Globals) : Globals.Keeps (fun _ => false) a b := nofun
  obtain ⟨differ, symmetric⟩ := compares (fun _ => false) plainHost.cache.globals
    (hostAt (.uint 0)).cache.globals (unshared _ _)
  have changed := (differ "n").mpr (.inl (by decide))
  refine ⟨changed, symmetric, ?_, ?_⟩
  · exact triangle _ _ _ _ _ _ (unshared _ _) (unshared _ _) (fun _ isShared _ => isShared) "n"
      changed
  · have run : Run plainHost [.setGlobal "n" (.number (.uint 0))] (hostAt (.uint 0)) :=
      .cons trivial (.nil _)
    have kept : ∀ name, KeepsInstance name plainHost [.setGlobal "n" (.number (.uint 0))] →
        (name != "n") = true := fun _ keeps => keeps.2.1
    have differs := Globals.mem_changedNamesSharing.mpr
      (rfl : plainHost.cache.globals.differsSharing (fun other => other != "n")
        (hostAt (.uint 0)).cache.globals "n" = true)
    rcases between _ _ _ (fun other => other != "n") run kept "n" differs with found | ⟨plain, _⟩
    · exact found
    · exact absurd trivial (plain _ List.mem_cons_self)

end Host

end MessageQuery
