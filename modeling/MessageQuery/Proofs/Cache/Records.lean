import MessageQuery.Proofs.Cache.Sharing

/-!
# The records of a batch

Each record of a batch was made at one moment on the way through the lookups of the batch: from the
list that a lookup gave there, or with an empty list that was numbered there. What was looked up is
still remembered when the batch is done.
-/

namespace MessageQuery

namespace Cache

variable {alive : Nat → Bool} {live : List Message} {path : String} {cache last : Cache}

/-- A record holds the list that a lookup gives, or else an empty list of its own. -/
inductive Gives (alive : Nat → Bool) (path : String) (message : Message) (cache : Cache) :
    Record → Cache → Prop where
  | found {items : SharedItems} {after : Cache}
      (answered : cache.get alive path message = (.ok (some items), after)) :
      Gives alive path message cache ⟨message, items⟩ after
  | empty {after : Cache} (answered : cache.get alive path message = (.ok none, after)) :
      Gives alive path message cache ⟨message, (after.share []).1⟩ (after.share []).2

/-- What the records of a path begin with. -/
theorem records_cons (alive : Nat → Bool) (path : String) (message : Message)
    (rest : List Message) (cache : Cache) :
    (∃ cause after, cache.get alive path message = (.error cause, after) ∧
      records alive path (message :: rest) cache = (.error cause, after)) ∨
    ∃ record middle, Gives alive path message cache record middle ∧
      records alive path (message :: rest) cache =
        match records alive path rest middle with
        | (.ok later, last) => (.ok (record :: later), last)
        | failed => failed := by
  have opened := records.eq_2 alive path cache message rest
  cases answered : cache.get alive path message with
  | mk outcome after =>
      rw [answered] at opened
      cases outcome with
      | error cause => exact .inl ⟨cause, after, rfl, opened⟩
      | ok result? =>
          right
          cases result? with
          | some items => exact ⟨_, after, .found answered, opened⟩
          | none => exact ⟨_, _, .empty answered, opened⟩

theorem Gives.lookups {message : Message} {record : Record} {after : Cache}
    (gives : Gives alive path message cache record after) (living : message ∈ live) :
    Lookups alive live cache after := by
  have looked : Lookups alive live cache (cache.get alive path message).2 :=
    Lookups.refl.get path living
  cases gives with
  | found answered => rwa [answered] at looked
  | empty answered => rw [answered] at looked; exact looked.share

/-- The record of a live message was made at some moment of a batch. -/
structure Arises (alive : Nat → Bool) (live : List Message) (path : String) (first last : Cache)
    (message : Message) (record : Record) : Prop where
  living : message ∈ live
  moment : ∃ before after, Lookups alive live first before ∧
    Gives alive path message before record after ∧ Lookups alive live after last

theorem Arises.mono {message : Message} {record : Record} {first middle final : Cache}
    (arises : Arises alive live path middle last message record)
    (early : Lookups alive live first middle) (late : Lookups alive live last final) :
    Arises alive live path first final message record := by
  obtain ⟨before, after, reached, gives, onward⟩ := arises.moment
  exact ⟨arises.living, before, after, early.trans reached, gives, onward.trans late⟩

theorem records_arise {chosen : List Message} {found : List Record}
    (living : ∀ message ∈ chosen, message ∈ live)
    (outcome : records alive path chosen cache = (.ok found, last)) :
    List.Forall₂ (Arises alive live path cache last) chosen found := by
  induction chosen generalizing cache found with
  | nil =>
      cases outcome
      exact .nil
  | cons message rest ih =>
      have here := living message List.mem_cons_self
      have restLiving : ∀ other ∈ rest, other ∈ live :=
        fun other member => living other (List.mem_cons_of_mem _ member)
      rcases records_cons alive path message rest cache with
        ⟨cause, after, _, fails⟩ | ⟨record, middle, gives, onward⟩
      · rw [fails] at outcome
        cases outcome
      · have later : Lookups alive live middle (records alive path rest middle).2 :=
          lookups_records restLiving
        rw [onward] at outcome
        cases ending : records alive path rest middle with
        | mk later' final =>
            rw [ending] at outcome later
            cases later' with
            | error cause => cases outcome
            | ok others =>
                cases outcome
                refine .cons ⟨here, cache, middle, .refl, gives, later⟩ ?_
                exact (ih restLiving ending).imp fun _ _ arises =>
                  arises.mono (gives.lookups here) .refl

/-- What a record holds is remembered; without a result the list is empty and newly numbered. -/
theorem Arises.remembered {message : Message} {record : Record} {first : Cache}
    (arises : Arises alive live path first last message record)
    (isAlive : ∀ message ∈ live, alive message.identity = true) :
    record.message = message ∧
      (last.Remembers path message.identity (some record.items) ∨
        last.Remembers path message.identity none ∧ record.items.items = [] ∧
          first.nextIdentity ≤ record.items.identity) := by
  obtain ⟨before, after, reached, gives, onward⟩ := arises.moment
  have living := isAlive message arises.living
  cases gives with
  | found answered =>
      have remembers := remembers_of_get (congrArg Prod.fst answered)
      rw [answered] at remembers
      exact ⟨rfl, .inl (onward.remembers living remembers)⟩
  | @empty middle answered =>
      have remembers := remembers_of_get (congrArg Prod.fst answered)
      rw [answered] at remembers
      have looked : Lookups alive live first middle := by
        have got := reached.get path arises.living
        rwa [answered] at got
      exact ⟨rfl, .inr ⟨onward.remembers living remembers, rfl, looked.nextIdentity_le⟩⟩

/-- The list of a record has been numbered by the end of the batch. -/
theorem Arises.issued {message : Message} {record : Record} {first : Cache} {nextMessage : Nat}
    (arises : Arises alive live path first last message record)
    (arrived : ∀ message ∈ live, message.identity < nextMessage)
    (formed : first.WellFormed nextMessage) : record.items.identity < last.nextIdentity := by
  obtain ⟨before, after, reached, gives, onward⟩ := arises.moment
  refine Nat.lt_of_lt_of_le ?_ onward.nextIdentity_le
  cases gives with
  | @found items _ answered =>
      obtain ⟨entry, slot, isEntry, known, isResult⟩ :=
        remembers_of_get (congrArg Prod.fst answered)
      rw [answered] at isEntry
      have looked := (reached.get path arises.living).wellFormed arrived formed
      rw [answered] at looked
      exact (looked.slots path entry isEntry slot (Entry.mem_of_lookup? known).1).2 items isResult
  | empty answered => exact Nat.lt_succ_self _

end Cache

end MessageQuery
