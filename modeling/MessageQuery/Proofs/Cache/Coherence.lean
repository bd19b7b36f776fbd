import MessageQuery.Proofs.Cache.WellFormed

/-!
# Coherence of the answers

All that the entry of a path keeps was computed from one snapshot of the globals. The snapshot may
be older than the current one, but both give alike values to the variables of the path. So an
answer of the cache is the direct evaluation under a snapshot that agrees with the current one,
and a lookup fails exactly where a strict resolution fails now.
-/

namespace MessageQuery

/-- The evaluation of a path text without the memo, under a snapshot of the globals. -/
def Cache.direct (cache : Cache) (snapshot : Globals) (path : String) (message : Message) :
    Option (List Item) :=
  ({ cache with globals := snapshot }.evaluateText path message.event).1

/-- Snapshots that agree on the variables to which a path text refers. -/
def AgreeOnReferences (path : String) (first second : Globals) : Prop :=
  ∀ parsed, Path.parse? path = some parsed → Globals.AgreeOn parsed.variableNames first second

namespace AgreeOnReferences

variable {path : String} {first second third : Globals}

theorem refl (path : String) (globals : Globals) : AgreeOnReferences path globals globals :=
  fun _ _ => .refl _ _

theorem trans (early : AgreeOnReferences path first second)
    (late : AgreeOnReferences path second third) : AgreeOnReferences path first third :=
  fun parsed parses => (early parsed parses).trans (late parsed parses)

end AgreeOnReferences

theorem Cache.direct_eq (cache : Cache) (snapshot : Globals) (path : String)
    (message : Message) :
    cache.direct snapshot path message = (Path.parse? path).bind fun parsed =>
      (parsed.resolve snapshot).path.items? cache.registry.catalog message.event.message := by
  unfold direct evaluateText Path.parse?
  cases Path.parse path <;> rfl

/-- The snapshot from which all that an entry keeps was computed. -/
structure Explains (live : List Message) (path : String) (cache : Cache) (entry : Entry)
    (snapshot : Globals) : Prop where
  agree : AgreeOnReferences path snapshot cache.globals
  resolved : ∀ kept, entry.resolved? = some kept → ∃ parsed, Path.parse? path = some parsed ∧
    kept = (parsed.resolve snapshot).path ∧
    (cache.strict = true → failure? (parsed.resolveStrict snapshot) = none)
  unanswered : ∀ parsed, Path.parse? path = some parsed → entry.resolved? = none →
    entry.memo = []
  results : ∀ slot ∈ entry.memo, ∀ message ∈ live, message.identity = slot.message →
    slot.result?.map SharedItems.items = cache.direct snapshot path message

def Cache.Coherent (live : List Message) (cache : Cache) : Prop :=
  ∀ path entry, cache.entryOf? path = some entry →
    ∃ snapshot, Explains live path cache entry snapshot

namespace Explains

variable {live : List Message} {path : String} {cache : Cache} {entry : Entry}
  {snapshot : Globals}

theorem ofBlank (blank : entry.IsBlank path) : Explains live path cache entry cache.globals where
  agree := .refl _ _
  resolved := by
    intro kept isKept
    rw [blank.unresolved] at isKept
    cases isKept
  unanswered := fun _ _ _ => blank.unanswered
  results := by
    intro slot member
    rw [blank.unanswered] at member
    cases member

/-- What explains an entry explains what is left of it, as long as the settings stay. -/
theorem moved {later : List Message} {after : Cache} {left : Entry}
    (explains : Explains live path cache entry snapshot)
    (agree : AgreeOnReferences path cache.globals after.globals)
    (registry : after.registry = cache.registry) (strict : after.strict = cache.strict)
    (resolved : left.resolved? = entry.resolved?)
    (memo : ∀ slot ∈ left.memo, slot ∈ entry.memo)
    (known : ∀ slot ∈ entry.memo, ∀ message ∈ later, message.identity = slot.message →
      message ∈ live) :
    Explains later path after left snapshot where
  agree := explains.agree.trans agree
  resolved := by
    rw [resolved, strict]
    exact explains.resolved
  unanswered := by
    intro parsed parses unresolved
    rw [resolved] at unresolved
    have none_before := explains.unanswered parsed parses unresolved
    exact List.eq_nil_iff_forall_not_mem.mpr fun slot member => by
      have before := memo slot member
      rw [none_before] at before
      cases before
  results := by
    intro slot member message living same
    have before := memo slot member
    rw [explains.results slot before message (known slot before message living same) same,
      Cache.direct_eq, Cache.direct_eq, registry]

/-- An evaluation is explained by the snapshot of the kept path, or else by the current one. -/
theorem evaluated {ready : Entry} {resolved? : Option Path} {result? : Option SharedItems}
    {message : Message} (explains : Explains live path cache entry snapshot)
    (isParsed : entry.parsed? = Path.parse? path)
    (resolves : entry.Resolves cache.globals cache.strict resolved? ready)
    (items : result?.map SharedItems.items = cache.evaluate resolved? message) :
    ∃ current, Explains live path cache ready current ∧
      result?.map SharedItems.items = cache.direct current path message := by
  rw [items]
  cases resolves with
  | invalid unparsed =>
      refine ⟨snapshot, explains, ?_⟩
      rw [Cache.direct_eq, ← isParsed, unparsed]
      rfl
  | @kept parsed kept isPath isResolved =>
      obtain ⟨known, parses, rfl, _⟩ := explains.resolved kept isResolved
      refine ⟨snapshot, explains, ?_⟩
      rw [Cache.direct_eq, parses]
      rfl
  | @fresh parsed isPath unresolved succeeds =>
      have parses := isParsed.symm.trans isPath
      refine ⟨cache.globals, ⟨.refl _ _, ?_, ?_, ?_⟩, ?_⟩
      · rintro kept ⟨⟩
        exact ⟨parsed, parses, rfl, succeeds⟩
      · intro _ _ isNone
        cases isNone
      · intro slot member
        rw [explains.unanswered parsed parses unresolved] at member
        cases member
      · rw [Cache.direct_eq, parses]
        rfl

/-- A result that was computed under the same snapshot may be added. -/
theorem stored {alive : Nat → Bool} {message : Message} {result? : Option SharedItems}
    (explains : Explains live path cache entry snapshot)
    (distinct : ∀ other ∈ live, other.identity = message.identity → other = message)
    (ready : ∀ parsed, Path.parse? path = some parsed → entry.resolved? ≠ none)
    (items : result?.map SharedItems.items = cache.direct snapshot path message) :
    Explains live path cache (entry.store alive ⟨message.identity, result?⟩) snapshot where
  agree := explains.agree
  resolved := by
    rw [Entry.resolved?_store]
    exact explains.resolved
  unanswered := by
    intro parsed parses unresolved
    rw [Entry.resolved?_store] at unresolved
    exact absurd unresolved (ready parsed parses)
  results := by
    intro slot member other living same
    rcases Entry.mem_memo_store member with rfl | old
    · rw [distinct other living same]
      exact items
    · exact explains.results slot old other living same

end Explains

/-! ## Lookups -/

namespace Cache.Coherent

variable {live : List Message} {cache : Cache} {alive : Nat → Bool} {path : String}
  {message : Message}

theorem get (distinct : ∀ a ∈ live, ∀ b ∈ live, a.identity = b.identity → a = b)
    (living : message ∈ live) (isParsed : cache.IsParsed) (coherent : cache.Coherent live) :
    (cache.get alive path message).2.Coherent live := by
  refine get_preserves (Coherent live) coherent fun {entry _ _ _ after} evaluates => ?_
  intro other new isNew
  -- An explanation looks only at settings that a lookup keeps.
  have carried : ∀ {place : String} {kept : Entry} {snapshot : Globals},
      Explains live place cache kept snapshot → Explains live place after kept snapshot := by
    intro place kept snapshot explains
    refine explains.moved ?_ evaluates.settings.registry evaluates.settings.strict rfl
      (fun _ member => member) (fun _ _ _ living _ => living)
    rw [evaluates.settings.globals]
    exact .refl _ _
  rw [evaluates.view other] at isNew
  split at isNew
  · next here =>
      subst here
      cases isNew
      have isRead := isParsed other entry evaluates.found
      obtain ⟨snapshot, explains⟩ := coherent other entry evaluates.found
      obtain ⟨current, ready, same⟩ :=
        explains.evaluated isRead evaluates.resolves evaluates.items
      refine ⟨current, carried (ready.stored ?_ ?_ same)⟩
      · exact fun another member identity => distinct another member message living identity
      · intro parsed parses
        exact evaluates.resolves.resolved?_ne_none (isRead.trans parses)
  · obtain ⟨snapshot, explains⟩ := coherent other new isNew
    exact ⟨snapshot, carried explains⟩

theorem share (items : List Item) (coherent : cache.Coherent live) :
    (cache.share items).2.Coherent live := by
  intro path entry found
  obtain ⟨snapshot, explains⟩ := coherent path entry found
  exact ⟨snapshot, explains.moved (.refl _ _) rfl rfl rfl (fun _ member => member)
    (fun _ _ _ living _ => living)⟩

/-- A result that is given is what the path addresses under a snapshot that agrees. -/
theorem answer_eq_direct (isParsed : cache.IsParsed) (coherent : cache.Coherent live)
    (living : message ∈ live) {result? : Option SharedItems}
    (answered : (cache.get alive path message).1 = .ok result?) :
    ∃ snapshot, AgreeOnReferences path snapshot cache.globals ∧
      result?.map SharedItems.items = cache.direct snapshot path message := by
  have answers := cache.get_answers alive path message
  rw [answered] at answers
  generalize (cache.get alive path message).2 = after at answers
  cases answers with
  | @memoized entry slot found known =>
      obtain ⟨snapshot, explains⟩ := coherent path entry found
      obtain ⟨member, same⟩ := Entry.mem_of_lookup? known
      exact ⟨snapshot, explains.agree, explains.results slot member message living same.symm⟩
  | @evaluated entry _ _ _ _ evaluates =>
      have isRead := isParsed path entry evaluates.found
      obtain ⟨snapshot, explains⟩ := coherent path entry evaluates.found
      obtain ⟨current, ready, same⟩ :=
        explains.evaluated isRead evaluates.resolves evaluates.items
      exact ⟨current, ready.agree, same⟩

/-- Nothing is known of a path whose strict resolution fails. -/
theorem unknown_of_failing (coherent : cache.Coherent live) {entry : Entry}
    (found : cache.entryOf? path = some entry) (strict : cache.strict = true) {parsed : Path}
    (parses : Path.parse? path = some parsed) {error : QueryError}
    (fails : parsed.resolveStrict cache.globals = .error error) :
    entry.resolved? = none ∧ entry.memo = [] := by
  obtain ⟨snapshot, explains⟩ := coherent path entry found
  have unresolved : entry.resolved? = none := by
    cases isResolved : entry.resolved? with
    | none => rfl
    | some kept =>
        obtain ⟨known, isKnown, _, succeeds⟩ := explains.resolved kept isResolved
        cases parses.symm.trans isKnown
        have same := Path.failure?_resolveStrict_eq_of_agree (explains.agree parsed parses)
        rw [succeeds strict, fails] at same
        cases same
  exact ⟨unresolved, explains.unanswered parsed parses unresolved⟩

/-- A lookup of a declared path fails exactly if its strict resolution fails now. -/
theorem answer_error_iff (isParsed : cache.IsParsed) (coherent : cache.Coherent live)
    (declared : path ∈ cache.paths) (error : QueryError) :
    (cache.get alive path message).1 = .error error ↔
      cache.strict = true ∧ ∃ parsed, Path.parse? path = some parsed ∧
        parsed.resolveStrict cache.globals = .error error := by
  obtain ⟨known, isKnown⟩ := Option.isSome_iff_exists.mp (Cache.entryOf?_isSome_iff.mpr declared)
  have answers := cache.get_answers alive path message
  generalize cache.get alive path message = outcome at answers ⊢
  obtain ⟨answer, after⟩ := outcome
  constructor
  · rintro ⟨⟩
    cases answers with
    | undeclared absent => exact absurd (absent.symm.trans isKnown) (by simp)
    | @failed entry _ found unknown fails =>
        obtain ⟨parsed, isPath, failing⟩ := fails.fails
        exact ⟨fails.isStrict, parsed, (isParsed path entry found).symm.trans isPath,
          failure?_eq_some_iff.mp failing⟩
  · rintro ⟨strict, parsed, parses, failing⟩
    obtain ⟨unresolved, unanswered⟩ := coherent.unknown_of_failing isKnown strict parses failing
    have isPath := (isParsed path known isKnown).trans parses
    cases answers with
    | undeclared absent => exact absurd (absent.symm.trans isKnown) (by simp)
    | memoized found memoized =>
        cases isKnown.symm.trans found
        have member := (Entry.mem_of_lookup? memoized).1
        rw [unanswered] at member
        cases member
    | failed found unknown fails =>
        cases isKnown.symm.trans found
        obtain ⟨other, isOther, fails⟩ := fails.fails
        cases isPath.symm.trans isOther
        rw [failing] at fails
        cases fails
        rfl
    | evaluated evaluates =>
        cases isKnown.symm.trans evaluates.found
        cases evaluates.resolves with
        | invalid unparsed => exact absurd (unparsed.symm.trans isPath) (by simp)
        | kept _ isResolved => exact absurd (unresolved.symm.trans isResolved) (by simp)
        | fresh isOther _ succeeds =>
            cases isPath.symm.trans isOther
            have none_fails := succeeds strict
            rw [failing] at none_fails
            cases none_fails

end Cache.Coherent

end MessageQuery
