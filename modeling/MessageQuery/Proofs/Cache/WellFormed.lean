import MessageQuery.Proofs.Cache.Steps

/-!
# Well-formed hosts

In every state that a run reaches, each entry holds what its text reads as, each slot belongs to a
message that has arrived, and each result list has an identity that was given out. The messages
that are alive are told apart by their identities, and a message that was dropped does not come
back.
-/

namespace MessageQuery

structure Cache.WellFormed (nextMessage : Nat) (cache : Cache) : Prop where
  isParsed : cache.IsParsed
  slots : ∀ path entry, cache.entryOf? path = some entry → ∀ slot ∈ entry.memo,
    slot.message < nextMessage ∧
      ∀ shared, slot.result? = some shared → shared.identity < cache.nextIdentity

structure Host.WellFormed (host : Host) : Prop where
  cache : host.cache.WellFormed host.nextMessage
  arrived : ∀ message ∈ host.live, message.identity < host.nextMessage
  distinct : ∀ a ∈ host.live, ∀ b ∈ host.live, a.identity = b.identity → a = b

/-! ## Lookups -/

namespace Cache.WellFormed

variable {nextMessage : Nat} {cache : Cache}

theorem get {alive : Nat → Bool} {path : String} {message : Message}
    (arrived : message.identity < nextMessage) (wellFormed : cache.WellFormed nextMessage) :
    (cache.get alive path message).2.WellFormed nextMessage := by
  refine get_preserves (WellFormed nextMessage) wellFormed fun {entry _ _ _ after} evaluates => ?_
  refine ⟨fun other new isNew => ?_, fun other new isNew slot member => ?_⟩
  · rw [evaluates.view other] at isNew
    split at isNew
    · next here =>
        cases isNew
        rw [here, Entry.parsed?_store, evaluates.resolves.parsed?_eq]
        exact wellFormed.isParsed path entry evaluates.found
    · exact wellFormed.isParsed other new isNew
  · have older : ∀ place old, cache.entryOf? place = some old → slot ∈ old.memo →
        slot.message < nextMessage ∧
          ∀ shared, slot.result? = some shared → shared.identity < after.nextIdentity := by
      intro place old isOld inOld
      obtain ⟨before, smaller⟩ := wellFormed.slots place old isOld slot inOld
      exact ⟨before, fun shared isShared =>
        Nat.lt_of_lt_of_le (smaller shared isShared) evaluates.grows⟩
    rw [evaluates.view other] at isNew
    split at isNew
    · cases isNew
      rcases Entry.mem_memo_store member with rfl | old
      · exact ⟨arrived, fun shared isShared => (evaluates.numbered shared isShared).2⟩
      · exact older path entry evaluates.found (evaluates.resolves.memo_eq ▸ old)
    · exact older other new isNew member

theorem share (items : List Item) (wellFormed : cache.WellFormed nextMessage) :
    (cache.share items).2.WellFormed nextMessage := by
  refine ⟨wellFormed.isParsed, fun path entry found slot member => ?_⟩
  obtain ⟨before, smaller⟩ := wellFormed.slots path entry found slot member
  exact ⟨before, fun shared isShared => Nat.lt_succ_of_lt (smaller shared isShared)⟩

end Cache.WellFormed

theorem Cache.Lookups.wellFormed {alive : Nat → Bool} {live : List Message} {first second : Cache}
    {nextMessage : Nat} (lookups : Lookups alive live first second)
    (arrived : ∀ message ∈ live, message.identity < nextMessage)
    (before : first.WellFormed nextMessage) : second.WellFormed nextMessage :=
  lookups.preserves (WellFormed nextMessage)
    (fun _ _ message living formed => formed.get (arrived message living))
    (fun _ formed => formed.share []) before

namespace Host

variable {host : Host} {operation : Operation}

theorem nextIdentity_perform (isParsed : host.cache.IsParsed) (permitted : host.Permits operation)
    (plain : ¬IsLookup operation) :
    (host.perform operation).cache.nextIdentity = host.cache.nextIdentity := by
  rcases perform_cases isParsed permitted plain with ⟨texts, rfl⟩ | rfl | clears
  · simp only [perform, withCache, Cache.setPaths]
    split <;> rfl
  · rfl
  · exact clears.identities

theorem nextMessage_le_perform (host : Host) (operation : Operation) :
    host.nextMessage ≤ (host.perform operation).nextMessage := by
  cases operation with
  | receive event => exact Nat.le_succ _
  | _ => exact Nat.le_refl _

namespace WellFormed

theorem start (registry : Registry) (options : Options) : (start registry options).WellFormed where
  cache := by
    refine ⟨fun path entry found => ?_, fun path entry found => ?_⟩
    · cases found
    · cases found
  arrived := fun _ member => by cases member
  distinct := fun _ member => by cases member

theorem cache_plain (wellFormed : host.WellFormed) (permitted : host.Permits operation)
    (plain : ¬IsLookup operation) :
    (host.perform operation).cache.WellFormed host.nextMessage := by
  refine ⟨fun path new found => ?_, fun path new found slot member => ?_⟩
  · rcases isBlank_or_kept wellFormed.cache.isParsed permitted plain found with
      blank | ⟨_, old, isOld, rfl | rfl⟩
    · exact blank.parsed
    · exact wellFormed.cache.isParsed path _ isOld
    · exact wellFormed.cache.isParsed path old isOld
  · rw [nextIdentity_perform wellFormed.cache.isParsed permitted plain]
    rcases isBlank_or_kept wellFormed.cache.isParsed permitted plain found with
      blank | ⟨_, old, isOld, rfl | rfl⟩
    · rw [blank.unanswered] at member
      cases member
    · exact wellFormed.cache.slots path _ isOld slot member
    · exact wellFormed.cache.slots path old isOld slot (Entry.mem_memo_prune member)

theorem perform (wellFormed : host.WellFormed) (permitted : host.Permits operation) :
    (host.perform operation).WellFormed := by
  have cache : (host.perform operation).cache.WellFormed host.nextMessage := by
    by_cases lookup : IsLookup operation
    · exact (lookups_perform permitted lookup).wellFormed wellFormed.arrived wellFormed.cache
    · exact wellFormed.cache_plain permitted lookup
  have grown : (host.perform operation).cache.WellFormed (host.perform operation).nextMessage :=
    ⟨cache.isParsed, fun path entry found slot member =>
      have ⟨arrived, numbered⟩ := cache.slots path entry found slot member
      ⟨Nat.lt_of_lt_of_le arrived (host.nextMessage_le_perform operation), numbered⟩⟩
  cases operation with
  | receive event =>
      refine ⟨grown, fun message member => ?_, fun a inA b inB same => ?_⟩
      · rcases List.mem_cons.mp member with rfl | old
        · exact Nat.lt_succ_self _
        · exact Nat.lt_succ_of_lt (wellFormed.arrived message old)
      · rcases List.mem_cons.mp inA with rfl | oldA
        · rcases List.mem_cons.mp inB with rfl | oldB
          · rfl
          · exact absurd same (Nat.ne_of_gt (wellFormed.arrived b oldB))
        · rcases List.mem_cons.mp inB with rfl | oldB
          · exact absurd same (Nat.ne_of_lt (wellFormed.arrived a oldA))
          · exact wellFormed.distinct a oldA b oldB same
  | drop message =>
      refine ⟨grown, fun other member => ?_, fun a inA b inB same => ?_⟩
      · exact wellFormed.arrived other (List.mem_filter.mp member).1
      · exact wellFormed.distinct a (List.mem_filter.mp inA).1 b (List.mem_filter.mp inB).1 same
  | _ => exact ⟨grown, wellFormed.arrived, wellFormed.distinct⟩

theorem run {first last : Host} {operations : List Operation} (run : Run first operations last)
    (wellFormed : first.WellFormed) : last.WellFormed :=
  run.preserves _ (fun _ _ permitted kept => kept.perform permitted) wellFormed

end WellFormed

/-- A message that is alive at the end of a run, and had arrived before it, was alive before. -/
theorem Run.live_of_live {first last : Host} {operations : List Operation}
    (run : Run first operations last) {message : Message} (living : message ∈ last.live)
    (arrived : message.identity < first.nextMessage) : message ∈ first.live := by
  induction run with
  | nil host => exact living
  | @cons host last operation rest permitted later ih =>
      have kept := ih living (Nat.lt_of_lt_of_le arrived (host.nextMessage_le_perform operation))
      cases operation with
      | receive event =>
          rcases List.mem_cons.mp kept with rfl | old
          · exact absurd arrived (Nat.lt_irrefl _)
          · exact old
      | drop other => exact (List.mem_filter.mp kept).1
      | _ => exact kept

end Host

end MessageQuery
