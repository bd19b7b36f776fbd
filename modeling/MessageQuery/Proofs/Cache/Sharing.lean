import MessageQuery.Proofs.Cache.WellFormed

/-!
# Shared results

A lookup that succeeds is remembered: the next one for the same message gives the same instance
and changes nothing. What is remembered about a path stays remembered as long as the message is
alive and no operation disturbs the path. An operation that disturbs the path retires every
instance that was given for it, and no later lookup of the path gives a retired one.
-/

namespace MessageQuery

namespace Cache

/-- The path has a slot for the message, with the given result. -/
def Remembers (path : String) (message : Nat) (result? : Option SharedItems) (cache : Cache) :
    Prop :=
  ∃ entry slot, cache.entryOf? path = some entry ∧ entry.lookup? message = some slot ∧
    slot.result? = result?

/-- The identity was given out, but no slot of the path has it. -/
structure Retires (path : String) (identity : Nat) (cache : Cache) : Prop where
  issued : identity < cache.nextIdentity
  absent : ∀ entry, cache.entryOf? path = some entry → ∀ slot ∈ entry.memo,
    ∀ shared, slot.result? = some shared → shared.identity ≠ identity

variable {cache : Cache} {alive : Nat → Bool} {path : String} {message : Message}
  {result? : Option SharedItems} {identity : Nat}

/-! ## Remembering -/

theorem get_of_remembers (remembers : cache.Remembers path message.identity result?) :
    cache.get alive path message = (.ok result?, cache) := by
  obtain ⟨entry, slot, found, known, rfl⟩ := remembers
  unfold get
  rw [found]
  simp only [known]

theorem remembers_of_get (answered : (cache.get alive path message).1 = .ok result?) :
    (cache.get alive path message).2.Remembers path message.identity result? := by
  have answers := cache.get_answers alive path message
  rw [answered] at answers
  generalize (cache.get alive path message).2 = after at answers ⊢
  cases answers with
  | @memoized entry slot found known => exact ⟨entry, slot, found, known, rfl⟩
  | @evaluated entry ready _ _ _ evaluates =>
      have stored := evaluates.view path
      rw [if_pos rfl] at stored
      have known := Entry.lookup?_store_self alive ready ⟨message.identity, result?⟩
      exact ⟨_, _, stored, known, rfl⟩

/-- A lookup forgets nothing about the messages that are alive. -/
theorem Remembers.get {other : String} {asked : Message} {remembered : Nat}
    (living : alive remembered = true) (remembers : cache.Remembers path remembered result?) :
    (cache.get alive other asked).2.Remembers path remembered result? := by
  refine get_preserves (Remembers path remembered result?) remembers fun evaluates => ?_
  obtain ⟨old, slot, isOld, known, same⟩ := remembers
  by_cases here : path = other
  · subst here
    cases isOld.symm.trans evaluates.found
    have different : asked.identity ≠ remembered := by
      rintro rfl
      rw [evaluates.unknown] at known
      cases known
    have stored := evaluates.view path
    rw [if_pos rfl] at stored
    refine ⟨_, slot, stored, ?_, same⟩
    rw [Entry.lookup?_store_of_ne different living, Entry.lookup?, evaluates.resolves.memo_eq]
    exact known
  · refine ⟨old, slot, ?_, known, same⟩
    rw [evaluates.view path, if_neg here]
    exact isOld

theorem Lookups.remembers {live : List Message} {first second : Cache} {remembered : Nat}
    (lookups : Lookups alive live first second) (living : alive remembered = true)
    (before : first.Remembers path remembered result?) :
    second.Remembers path remembered result? :=
  lookups.preserves (Remembers path remembered result?)
    (fun _ _ _ _ kept => kept.get living) (fun _ kept => kept) before

theorem Remembers.kept {after : Cache} {remembered : Nat} (living : alive remembered = true)
    (keeps : KeepsEntry alive path cache after)
    (remembers : cache.Remembers path remembered result?) :
    after.Remembers path remembered result? := by
  obtain ⟨old, slot, isOld, known, same⟩ := remembers
  obtain ⟨new, isNew, rfl | rfl⟩ := keeps old isOld
  · exact ⟨_, slot, isNew, known, same⟩
  · refine ⟨_, slot, isNew, ?_, same⟩
    rw [Entry.lookup?_prune living]
    exact known

/-! ## Retired instances -/

theorem Retires.get {other : String} (retires : cache.Retires path identity) :
    (cache.get alive other message).2.Retires path identity := by
  refine get_preserves (Retires path identity) retires fun {entry _ _ _ _} evaluates => ?_
  refine ⟨Nat.lt_of_lt_of_le retires.issued evaluates.grows, ?_⟩
  intro new isNew slot member shared isShared
  rw [evaluates.view path] at isNew
  split at isNew
  · next here =>
      subst here
      cases isNew
      rcases Entry.mem_memo_store member with rfl | old
      · have fresh := (evaluates.numbered shared isShared).1
        exact Nat.ne_of_gt (Nat.lt_of_lt_of_le retires.issued fresh)
      · rw [evaluates.resolves.memo_eq] at old
        exact retires.absent entry evaluates.found slot old shared isShared
  · exact retires.absent new isNew slot member shared isShared

theorem Retires.share (items : List Item) (retires : cache.Retires path identity) :
    (cache.share items).2.Retires path identity :=
  ⟨Nat.lt_succ_of_lt retires.issued, retires.absent⟩

/-- No lookup of the path gives an instance that is retired. -/
theorem Retires.ne_of_get {shared : SharedItems} (retires : cache.Retires path identity)
    (answered : (cache.get alive path message).1 = .ok (some shared)) :
    shared.identity ≠ identity := by
  have answers := cache.get_answers alive path message
  rw [answered] at answers
  generalize result : some shared = result? at answers
  generalize (cache.get alive path message).2 = after at answers
  cases answers with
  | @memoized entry slot found known =>
      have member := (Entry.mem_of_lookup? known).1
      exact retires.absent entry found slot member shared result.symm
  | evaluated evaluates =>
      have fresh := (evaluates.numbered shared result.symm).1
      exact Nat.ne_of_gt (Nat.lt_of_lt_of_le retires.issued fresh)

end Cache

namespace Host

variable {host : Host} {operation : Operation} {path : String} {message : Message}
  {result? : Option SharedItems} {identity : Nat}

/-! ## Steps -/

theorem remembers_perform (isParsed : host.cache.IsParsed) (permitted : host.Permits operation)
    (living : message ∈ host.live) (quiet : ¬host.Disturbs path operation)
    (remembers : host.cache.Remembers path message.identity result?) :
    (host.perform operation).cache.Remembers path message.identity result? := by
  have isAlive := alive_of_mem living
  by_cases lookup : IsLookup operation
  · exact (lookups_perform permitted lookup).remembers isAlive remembers
  · exact remembers.kept isAlive (perform_quiet isParsed permitted lookup quiet).2

theorem issued_perform (isParsed : host.cache.IsParsed) (permitted : host.Permits operation)
    (issued : identity < host.cache.nextIdentity) :
    identity < (host.perform operation).cache.nextIdentity := by
  by_cases lookup : IsLookup operation
  · exact Nat.lt_of_lt_of_le issued (lookups_perform permitted lookup).nextIdentity_le
  · rw [nextIdentity_perform isParsed permitted lookup]
    exact issued

theorem retires_of_disturbs (isParsed : host.cache.IsParsed) (permitted : host.Permits operation)
    (disturbs : host.Disturbs path operation) (issued : identity < host.cache.nextIdentity) :
    (host.perform operation).cache.Retires path identity := by
  refine ⟨issued_perform isParsed permitted issued, ?_⟩
  intro entry found slot member
  rw [(isBlank_of_disturbs isParsed permitted disturbs found).unanswered] at member
  cases member

theorem retires_perform (isParsed : host.cache.IsParsed) (permitted : host.Permits operation)
    (retires : host.cache.Retires path identity) :
    (host.perform operation).cache.Retires path identity := by
  by_cases lookup : IsLookup operation
  · exact (lookups_perform permitted lookup).preserves (Cache.Retires path identity)
      (fun _ _ _ _ before => before.get) (fun _ before => before.share []) retires
  · refine ⟨issued_perform isParsed permitted retires.issued, ?_⟩
    intro new found slot member
    rcases isBlank_or_kept isParsed permitted lookup found with blank | ⟨_, old, isOld, rfl | rfl⟩
    · rw [blank.unanswered] at member
      cases member
    · exact retires.absent _ isOld slot member
    · exact retires.absent old isOld slot (Entry.mem_memo_prune member)

/-! ## Runs -/

theorem Run.remembers {first last : Host} {operations : List Operation}
    (run : Run first operations last) (wellFormed : first.WellFormed) (living : message ∈ last.live)
    (arrived : message.identity < first.nextMessage)
    (quiet : Undisturbed path first operations)
    (remembers : first.cache.Remembers path message.identity result?) :
    last.cache.Remembers path message.identity result? := by
  induction run with
  | nil host => exact remembers
  | @cons host last operation rest permitted later ih =>
      obtain ⟨here, onward⟩ := quiet
      have stays := (Run.cons permitted later).live_of_live living arrived
      exact ih (wellFormed.perform permitted) living
        (Nat.lt_of_lt_of_le arrived (host.nextMessage_le_perform operation)) onward
        (remembers_perform wellFormed.cache.isParsed permitted stays here remembers)

theorem Run.retires {first last : Host} {operations : List Operation}
    (run : Run first operations last) (wellFormed : first.WellFormed)
    (retires : first.cache.Retires path identity) : last.cache.Retires path identity := by
  induction run with
  | nil host => exact retires
  | cons permitted later ih =>
      exact ih (wellFormed.perform permitted)
        (retires_perform wellFormed.cache.isParsed permitted retires)

theorem Run.retires_of_disturbed {first last : Host} {operations : List Operation}
    (run : Run first operations last) (wellFormed : first.WellFormed)
    (disturbed : ¬Undisturbed path first operations)
    (issued : identity < first.cache.nextIdentity) : last.cache.Retires path identity := by
  induction run with
  | nil host => exact absurd trivial disturbed
  | @cons host last operation rest permitted later ih =>
      have formed := wellFormed.perform permitted
      have isParsed := wellFormed.cache.isParsed
      by_cases here : host.Disturbs path operation
      · exact later.retires formed (retires_of_disturbs isParsed permitted here issued)
      · refine ih formed (fun quiet => ?_) (issued_perform isParsed permitted issued)
        exact disturbed ⟨here, quiet⟩

/-- Two lookups of a message that stays alive give the same instance exactly if nothing between
them disturbs the path; then the second one computes nothing. -/
theorem identity_eq_iff_undisturbed {registry : Registry} {options : Options}
    {before between : List Operation} {first second : Host}
    (reached : Run (start registry options) before first) {items later : SharedItems}
    (found : first.ask path message = .ok (some items)) (asked : message ∈ first.live)
    (run : Run (first.perform (.get path message)) between second)
    (again : second.ask path message = .ok (some later)) (living : message ∈ second.live) :
    (later.identity = items.identity ↔
      Undisturbed path (first.perform (.get path message)) between) ∧
    (Undisturbed path (first.perform (.get path message)) between →
      later = items ∧ second.perform (.get path message) = second) := by
  have wellFormed := WellFormed.run reached (.start registry options)
  have formed : (first.perform (.get path message)).WellFormed := wellFormed.perform asked
  have arrived := wellFormed.arrived message asked
  have remembers : (first.perform (.get path message)).cache.Remembers path message.identity
      (some items) := Cache.remembers_of_get found
  have same : Undisturbed path (first.perform (.get path message)) between →
      later = items ∧ second.perform (.get path message) = second := by
    intro quiet
    have known : second.cache.get second.alive path message = (.ok (some items), second.cache) :=
      Cache.get_of_remembers (run.remembers formed living arrived quiet remembers)
    constructor
    · rw [ask, known] at again
      cases again
      rfl
    · rw [perform, known]
      rfl
  refine ⟨⟨fun equal => ?_, fun quiet => ?_⟩, same⟩
  · apply Classical.byContradiction
    intro disturbed
    obtain ⟨entry, slot, isEntry, known, isShared⟩ := remembers
    have issued := (formed.cache.slots path entry isEntry slot (Entry.mem_of_lookup? known).1).2
      items isShared
    exact (run.retires_of_disturbed formed disturbed issued).ne_of_get again equal
  · rw [(same quiet).1]

theorem identity_eq_iff_undisturbed_plainHost :
    ∃ items later between second,
      plainHost.ask "/a[$n]" ⟨0, plainEvent⟩ = .ok (some items) ∧
      Run (plainHost.perform (.get "/a[$n]" ⟨0, plainEvent⟩)) between second ∧
      second.ask "/a[$n]" ⟨0, plainEvent⟩ = .ok (some later) ∧
      later.identity ≠ items.identity ∧
      ¬Undisturbed "/a[$n]" (plainHost.perform (.get "/a[$n]" ⟨0, plainEvent⟩)) between := by
  have run : Run (plainHost.perform (.get "/a[$n]" ⟨0, plainEvent⟩)) [.invalidateAll]
      ((plainHost.perform (.get "/a[$n]" ⟨0, plainEvent⟩)).perform .invalidateAll) :=
    .cons trivial (.nil _)
  have settled := identity_eq_iff_undisturbed run_plainHost rfl List.mem_cons_self run rfl
    List.mem_cons_self
  have different : (1 : Nat) ≠ 0 := Nat.one_ne_zero
  exact ⟨_, _, _, _, rfl, run, rfl, different, fun quiet => different (settled.1.mpr quiet)⟩

end Host

end MessageQuery
