import Mathlib.Data.List.Perm.Subperm
import MessageQuery.Proofs.Cache.Declared
import MessageQuery.Proofs.Cache.Sharing

/-!
# Pruning

A memo is pruned where the declared paths are set, where the host asks for it, and by a store that
finds it grown to its bound. A ledger of what has happened to the memo of one path tells the slots
that the last prune kept from those that were stored since. The bound is twice the number of those
that were kept, or 64 if that is more. A message has one slot at most, and what was kept was alive
at the time, so a memo never outgrows twice the number of messages that are alive at once, however
many come and go.
-/

namespace MessageQuery

/-- Whether a message of this identity is among the live ones, as `Host.alive` has it. -/
def aliveIn (live : List Message) (identity : Nat) : Bool :=
  live.any fun message => message.identity == identity

/-! ## Ledgers -/

/-- What can happen to the memo of a path. -/
inductive MemoChange where
  /-- The entry is made, cleared or given up. -/
  | empty
  /-- Only the slots of the messages that are alive are kept. -/
  | prune (live : List Message)
  | store (slot : Slot)

/-- A memo as its last prune divides it; nothing is kept if there was none since it was emptied. -/
structure Ledger where
  /-- Stored since the last prune, the latest first. -/
  added : List Slot
  /-- Kept by the last prune. -/
  kept : List Slot
  /-- The messages that were alive at the last prune. -/
  live : List Message

namespace Ledger

def empty : Ledger :=
  ⟨[], [], []⟩

def memo (ledger : Ledger) : List Slot :=
  ledger.added ++ ledger.kept

def change (ledger : Ledger) : MemoChange → Ledger
  | .empty => empty
  | .prune live => ⟨[], ledger.memo.filter fun slot => aliveIn live slot.message, live⟩
  | .store slot => { ledger with added := slot :: ledger.added }

def after (ledger : Ledger) (changes : List MemoChange) : Ledger :=
  changes.foldl change ledger

theorem after_append (ledger : Ledger) (early late : List MemoChange) :
    ledger.after (early ++ late) = (ledger.after early).after late :=
  List.foldl_append

/-- The ledger accounts for what an entry remembers, and for its bound. The last prune was made
while the live messages were as `seen` says. -/
structure Accounts (seen : List Message → Prop) (ledger : Ledger) (entry : Entry) : Prop where
  memo : entry.memo = ledger.memo
  bound : entry.pruneBound = max minPruneBound (2 * ledger.kept.length)
  fits : entry.memo.length ≤ entry.pruneBound
  distinct : (entry.memo.map Slot.message).Nodup
  alive : ∀ slot ∈ ledger.kept, aliveIn ledger.live slot.message = true
  seen : seen ledger.live

end Ledger

/-! ## Entries -/

namespace Entry

/-- A store prunes before it adds a slot to a memo that has grown to its bound. -/
def storeChanges (live : List Message) (slot : Slot) (entry : Entry) : List MemoChange :=
  if entry.pruneBound ≤ entry.memo.length then [.prune live, .store slot] else [.store slot]

theorem lookup?_eq_none_iff {entry : Entry} {message : Nat} :
    entry.lookup? message = none ↔ message ∉ entry.memo.map Slot.message := by
  unfold lookup?
  rw [List.find?_eq_none]
  simp

/-- Twice what is left leaves room for a slot, and so does the least bound. -/
theorem length_memo_prune_lt (alive : Nat → Bool) (entry : Entry) :
    (entry.prune alive).memo.length < (entry.prune alive).pruneBound := by
  simp only [prune, minPruneBound]
  omega

end Entry

namespace Ledger.Accounts

variable {seen : List Message → Prop} {ledger : Ledger} {entry : Entry} {live : List Message}
  {slot : Slot}

theorem of_emptied (nothing : seen []) (emptied : entry.memo = [])
    (bound : entry.pruneBound = minPruneBound) : empty.Accounts seen entry where
  memo := emptied
  bound := bound
  fits := by rw [emptied]; exact Nat.zero_le _
  distinct := by rw [emptied]; exact List.nodup_nil
  alive := fun _ member => absurd member List.not_mem_nil
  seen := nothing

theorem prune (accounts : ledger.Accounts seen entry) (isSeen : seen live) :
    (ledger.change (.prune live)).Accounts seen (entry.prune (aliveIn live)) where
  memo := by rw [Entry.prune, accounts.memo]; rfl
  bound := by rw [Entry.prune, accounts.memo, Nat.mul_comm]; rfl
  fits := Nat.le_of_lt (entry.length_memo_prune_lt _)
  distinct := accounts.distinct.sublist (List.filter_sublist.map _)
  alive := fun _ member => (List.mem_filter.mp member).2
  seen := isSeen

/-- The resolved path of an entry is not accounted for. -/
theorem resolved (resolved? : Option Path) (accounts : ledger.Accounts seen entry) :
    ledger.Accounts seen { entry with resolved? } :=
  ⟨accounts.memo, accounts.bound, accounts.fits, accounts.distinct, accounts.alive, accounts.seen⟩

/-- A slot for another message may be added while there is room. -/
theorem add (accounts : ledger.Accounts seen entry)
    (room : entry.memo.length < entry.pruneBound) (unknown : entry.lookup? slot.message = none) :
    (ledger.change (.store slot)).Accounts seen { entry with memo := slot :: entry.memo } where
  memo := congrArg (slot :: ·) accounts.memo
  bound := accounts.bound
  fits := room
  distinct := List.nodup_cons.mpr ⟨Entry.lookup?_eq_none_iff.mp unknown, accounts.distinct⟩
  alive := accounts.alive
  seen := accounts.seen

theorem store (accounts : ledger.Accounts seen entry) (isSeen : seen live)
    (unknown : entry.lookup? slot.message = none) :
    (ledger.after (entry.storeChanges live slot)).Accounts seen
      (entry.store (aliveIn live) slot) := by
  unfold Entry.storeChanges Entry.store
  by_cases full : entry.pruneBound ≤ entry.memo.length
  · rw [if_pos full, if_pos full]
    refine (accounts.prune isSeen).add (entry.length_memo_prune_lt _) ?_
    rw [Entry.lookup?_eq_none_iff] at unknown ⊢
    exact fun known => unknown (List.map_subset _ (fun _ => Entry.mem_memo_prune) known)
  · rw [if_neg full, if_neg full]
    exact accounts.add (Nat.lt_of_not_le full) unknown

/-- What was kept belongs to messages that were alive at the last prune, one slot to each. -/
theorem length_kept_le (accounts : ledger.Accounts seen entry) :
    ledger.kept.length ≤ ledger.live.length := by
  have distinct : (ledger.kept.map Slot.message).Nodup := by
    refine accounts.distinct.sublist (List.Sublist.map _ ?_)
    rw [accounts.memo]
    exact List.sublist_append_right _ _
  have alive : ledger.kept.map Slot.message ⊆ ledger.live.map Message.identity := by
    intro identity member
    obtain ⟨slot, inKept, rfl⟩ := List.mem_map.mp member
    obtain ⟨message, living, same⟩ := List.any_eq_true.mp (accounts.alive slot inKept)
    exact List.mem_map.mpr ⟨message, living, eq_of_beq same⟩
  have shorter := (distinct.subperm alive).length_le
  rwa [List.length_map, List.length_map] at shorter

theorem length_memo_le {bound : Nat} (few : ledger.live.length ≤ bound)
    (accounts : ledger.Accounts seen entry) : entry.memo.length ≤ max 64 (2 * bound) := by
  have fits := accounts.fits
  have kept := accounts.length_kept_le
  rw [accounts.bound, minPruneBound] at fits
  omega

end Ledger.Accounts

/-! ## Lookups -/

namespace Cache

/-- The ledger accounts for the entry of a path, if it is declared. -/
def Accounted (seen : List Message → Prop) (path : String) (ledger : Ledger) (cache : Cache) :
    Prop :=
  ∀ entry, cache.entryOf? path = some entry → ledger.Accounts seen entry

/-- What a lookup does to the memo of a path, which need not be the one that is asked for. -/
def lookupChanges (live : List Message) (path asked : String) (message : Message)
    (cache : Cache) : List MemoChange :=
  match cache.entryOf? asked, (cache.get (aliveIn live) asked message).1 with
  | some entry, .ok result? =>
      if asked = path ∧ (entry.lookup? message.identity).isNone then
        entry.storeChanges live ⟨message.identity, result?⟩
      else []
  | _, _ => []

/-- What the records of a path do to the memo of another or the same one. -/
def recordChanges (live : List Message) (path asked : String) :
    List Message → Cache → List MemoChange
  | [], _ => []
  | message :: messages, cache =>
      cache.lookupChanges live path asked message ++
        match cache.get (aliveIn live) asked message with
        | (.error _, _) => []
        | (.ok (some _), after) => recordChanges live path asked messages after
        | (.ok none, after) => recordChanges live path asked messages (after.share []).2

def decodeChanges (live : List Message) (path : String) (messages : Dict (List Message)) :
    List (String × Option String) → Cache → List MemoChange
  | [], _ => []
  | (asked, topic?) :: paths, cache =>
      let chosen? := match topic? with
        | none => some []
        | some topic => messages.get? topic
      match chosen? with
      | none => decodeChanges live path messages paths cache
      | some chosen =>
          recordChanges live path asked chosen cache ++
            match records (aliveIn live) asked chosen cache with
            | (.error _, _) => []
            | (.ok _, after) => decodeChanges live path messages paths after

section Lookups

variable {seen : List Message → Prop} {path : String} {ledger : Ledger} {live : List Message}
  {cache : Cache}

theorem accounted_get (asked : String) (message : Message) (isSeen : seen live)
    (accounted : cache.Accounted seen path ledger) :
    (cache.get (aliveIn live) asked message).2.Accounted seen path
      (ledger.after (cache.lookupChanges live path asked message)) := by
  unfold lookupChanges
  have answers := cache.get_answers (aliveIn live) asked message
  generalize cache.get (aliveIn live) asked message = outcome at answers ⊢
  obtain ⟨answer, after⟩ := outcome
  cases answers with
  | undeclared absent =>
      simp only [absent]
      exact accounted
  | memoized found known =>
      simp only [found, known, Option.isNone_some, Bool.false_eq_true, and_false, if_false]
      exact accounted
  | failed found unknown fails =>
      simp only [found]
      exact accounted
  | @evaluated entry ready resolved? result? _ evaluates =>
      simp only [evaluates.found, evaluates.unknown, Option.isNone_none, and_true]
      intro new isNew
      rw [evaluates.view path] at isNew
      by_cases here : asked = path
      · rw [if_pos here.symm] at isNew
        rw [if_pos here]
        cases isNew
        -- The entry that the result is stored in differs by its resolved path only.
        have same := evaluates.resolves.eq_with
        generalize ready.resolved? = kept? at same
        subst same
        exact ((accounted entry (here ▸ evaluates.found)).resolved kept?).store isSeen
          evaluates.unknown
      · rw [if_neg (Ne.symm here)] at isNew
        rw [if_neg here]
        exact accounted new isNew

theorem accounted_records (asked : String) (chosen : List Message) (isSeen : seen live)
    (accounted : cache.Accounted seen path ledger) :
    (records (aliveIn live) asked chosen cache).2.Accounted seen path
      (ledger.after (recordChanges live path asked chosen cache)) := by
  induction chosen generalizing cache ledger with
  | nil => exact accounted
  | cons message rest ih =>
      have after := accounted_get asked message isSeen accounted
      unfold records recordChanges
      rw [Ledger.after_append]
      generalize cache.get (aliveIn live) asked message = outcome at after ⊢
      rcases outcome with ⟨error | result?, middle⟩
      · exact after
      · cases result? with
        | some items => exact holds_records_cons _ _ (ih after)
        | none => exact holds_records_cons _ _ (ih after)

/-- The records of one path, and the paths after it if they succeed. -/
theorem accounted_decodePaths_cons {messages : Dict (List Message)} {asked : String}
    {chosen : List Message} {rest : List (String × Option String)} (isSeen : seen live)
    (accounted : cache.Accounted seen path ledger)
    (onward : ∀ {middle later}, middle.Accounted seen path later →
      (decodePaths (aliveIn live) messages rest middle).2.Accounted seen path
        (later.after (decodeChanges live path messages rest middle))) :
    (match records (aliveIn live) asked chosen cache with
      | (.error error, after) => (.error error, after)
      | (.ok found, after) =>
          match decodePaths (aliveIn live) messages rest after with
          | (.ok later, last) => (.ok ((asked, found) :: later), last)
          | failed => failed : Except QueryError Batch × Cache).2.Accounted seen path
      (ledger.after (recordChanges live path asked chosen cache ++
        match records (aliveIn live) asked chosen cache with
        | (.error _, _) => []
        | (.ok _, after) => decodeChanges live path messages rest after)) := by
  have after := accounted_records asked chosen isSeen accounted
  rw [Ledger.after_append]
  generalize records (aliveIn live) asked chosen cache = outcome at after ⊢
  rcases outcome with ⟨error | found, middle⟩
  · exact after
  · have last := onward after
    dsimp only
    generalize decodePaths (aliveIn live) messages rest middle = ending at last ⊢
    rcases ending with ⟨error | later, final⟩
    · exact last
    · exact last

theorem accounted_decodePaths {messages : Dict (List Message)}
    {paths : List (String × Option String)} (isSeen : seen live)
    (accounted : cache.Accounted seen path ledger) :
    (decodePaths (aliveIn live) messages paths cache).2.Accounted seen path
      (ledger.after (decodeChanges live path messages paths cache)) := by
  induction paths generalizing cache ledger with
  | nil => exact accounted
  | cons declared rest ih =>
      obtain ⟨asked, topic?⟩ := declared
      unfold decodePaths decodeChanges
      cases topic? with
      | none => exact accounted_decodePaths_cons isSeen accounted ih
      | some topic =>
          cases isChosen : messages.get? topic with
          | none =>
              simp only [isChosen]
              exact ih accounted
          | some chosen =>
              simp only [isChosen]
              exact accounted_decodePaths_cons isSeen accounted ih

theorem Lookups.paths_eq {alive : Nat → Bool} {first second : Cache}
    (lookups : Lookups alive live first second) : second.paths = first.paths :=
  lookups.preserves (fun after => after.paths = first.paths)
    (fun cache path message _ same => (paths_get alive path message cache).trans same)
    (fun _ same => same) rfl

/-- Whatever the lookups of a batch have done by some moment, some ledger accounts for it. -/
theorem Lookups.exists_accounted {last : Cache} (isSeen : seen live)
    (lookups : Lookups (aliveIn live) live cache last)
    (accounted : cache.Accounted seen path ledger) :
    ∃ later, last.Accounted seen path later :=
  lookups.preserves (fun middle => ∃ later, middle.Accounted seen path later)
    (fun _ asked message _ ⟨_, before⟩ => ⟨_, accounted_get asked message isSeen before⟩)
    (fun _ ⟨later, before⟩ => ⟨later, before⟩) ⟨ledger, accounted⟩

end Lookups

end Cache

/-! ## Runs -/

instance (path name : String) : Decidable (References path name) :=
  match parses : Path.parse? path with
  | none => isFalse fun ⟨_, isPath, _⟩ => absurd (parses.symm.trans isPath) (by simp)
  | some parsed => decidable_of_iff (name ∈ parsed.variableNames) (by simp [References, parses])

namespace Host

instance (host : Host) (path : String) : (operation : Operation) →
    Decidable (host.Disturbs path operation)
  | .setPaths texts => inferInstanceAs (Decidable (path ∉ texts))
  | .setRegistry registry =>
      inferInstanceAs (Decidable (registry.generation ≠ host.cache.registry.generation))
  | .setGlobals shared globals =>
      inferInstanceAs (Decidable
        (∃ name ∈ host.cache.globals.changedNamesSharing shared globals, References path name))
  | .setGlobal name value =>
      inferInstanceAs (Decidable
        (∃ changed ∈ host.cache.globals.changedNamesSharing (fun other => other != name)
          (host.cache.globals.insert name value), References path changed))
  | .setStrict strict => inferInstanceAs (Decidable (strict ≠ host.cache.strict))
  | .setOptions options =>
      inferInstanceAs (Decidable (options.strictSliceVariables ≠ host.cache.strict))
  | .invalidate text => inferInstanceAs (Decidable (text = path))
  | .invalidateAll => isTrue trivial
  | .invalidateByVariable name => inferInstanceAs (Decidable (References path name))
  | .prune | .get _ _ | .decode _ | .receive _ | .drop _ => isFalse id

/-- What an operation does to the memo of a path. -/
def memoChanges (path : String) (host : Host) : Operation → List MemoChange
  | .setPaths texts =>
      if path ∈ texts then
        if path ∈ host.cache.paths then [.prune host.live] else [.empty, .prune host.live]
      else [.empty]
  | .prune => [.prune host.live]
  | .get asked message => host.cache.lookupChanges host.live path asked message
  | .decode messages =>
      host.cache.decodeChanges host.live path messages host.cache.pathTopics
  | operation => if host.Disturbs path operation then [.empty] else []

/-- What the operations of a run do to the memo of a path. -/
def history (path : String) (host : Host) : List Operation → List MemoChange
  | [] => []
  | operation :: rest =>
      host.memoChanges path operation ++ (host.perform operation).history path rest

/-- The states that a run passes through. -/
def moments (host : Host) : List Operation → List Host
  | [] => [host]
  | operation :: rest => host :: (host.perform operation).moments rest

/-- The ledger of a path after a run that begins with nothing declared. -/
def ledger (path : String) (host : Host) (operations : List Operation) : Ledger :=
  Ledger.empty.after (host.history path operations)

theorem mem_moments_self (host : Host) (operations : List Operation) :
    host ∈ host.moments operations := by
  cases operations <;> exact List.mem_cons_self

theorem Run.mem_moments {first last : Host} {operations : List Operation}
    (run : Run first operations last) : last ∈ first.moments operations := by
  induction run with
  | nil host => exact List.mem_cons_self
  | cons _ _ ih => exact List.mem_cons_of_mem _ ih

section Runs

variable {seen : List Message → Prop} {path : String} {ledger : Ledger} {host : Host}

/-- An operation that clears what it disturbs empties the memos of these paths. -/
theorem accounted_of_clears {operation : Operation} (nothing : seen [])
    (clears : Clears (host.Disturbs · operation) host.cache (host.perform operation).cache)
    (accounted : host.cache.Accounted seen path ledger) :
    (host.perform operation).cache.Accounted seen path
      (ledger.after (if host.Disturbs path operation then [.empty] else [])) := by
  intro new isNew
  by_cases disturbs : host.Disturbs path operation
  · rw [if_pos disturbs]
    rw [clears.cleared path disturbs] at isNew
    obtain ⟨old, _, rfl⟩ := Option.map_eq_some_iff.mp isNew
    exact .of_emptied nothing rfl rfl
  · rw [if_neg disturbs]
    rw [clears.spared path disturbs] at isNew
    exact accounted new isNew

theorem accounted_setPaths {texts : List String} (nothing : seen []) (isSeen : seen host.live)
    (accounted : host.cache.Accounted seen path ledger) :
    (host.perform (.setPaths texts)).cache.Accounted seen path
      (ledger.after (host.memoChanges path (.setPaths texts))) := by
  intro new isNew
  have entry := Cache.entryOf?_setPaths host.alive texts host.cache path
  rw [memoChanges]
  by_cases member : path ∈ texts
  · rw [if_pos member] at entry ⊢
    cases entry.symm.trans isNew
    unfold Cache.declare
    cases before : host.cache.entryOf? path with
    | none =>
        have undeclared : path ∉ host.cache.paths := by
          rw [← Cache.entryOf?_isSome_iff, before]
          simp
        rw [if_neg undeclared]
        exact (Ledger.Accounts.of_emptied nothing rfl rfl).prune isSeen
    | some old =>
        have declared : path ∈ host.cache.paths := by
          rw [← Cache.entryOf?_isSome_iff, before]
          rfl
        rw [if_pos declared]
        exact (accounted old before).prune isSeen
  · rw [if_neg member] at entry
    exact absurd (entry.symm.trans isNew) (by simp)

/-- After an operation, the ledger that has noted its changes accounts for the entry. -/
theorem accounted_perform {operation : Operation} (isParsed : host.cache.IsParsed)
    (permitted : host.Permits operation) (nothing : seen []) (isSeen : seen host.live)
    (accounted : host.cache.Accounted seen path ledger) :
    (host.perform operation).cache.Accounted seen path
      (ledger.after (host.memoChanges path operation)) := by
  cases operation with
  | setPaths texts => exact accounted_setPaths nothing isSeen accounted
  | prune =>
      intro new isNew
      have entry := Cache.entryOf?_prune host.alive host.cache path
      obtain ⟨old, isOld, rfl⟩ := Option.map_eq_some_iff.mp (entry.symm.trans isNew)
      exact (accounted old isOld).prune isSeen
  | get asked message => exact Cache.accounted_get asked message isSeen accounted
  | decode messages => exact Cache.accounted_decodePaths isSeen accounted
  | _ =>
      rcases perform_cases isParsed permitted id with ⟨_, isSetPaths⟩ | isPrune | clears
      · cases isSetPaths
      · cases isPrune
      · exact accounted_of_clears nothing clears accounted

theorem Run.accounted {last : Host} {operations : List Operation}
    (run : Run host operations last) (wellFormed : host.WellFormed) (nothing : seen [])
    (isSeen : ∀ moment ∈ host.moments operations, seen moment.live)
    (accounted : host.cache.Accounted seen path ledger) :
    last.cache.Accounted seen path (ledger.after (host.history path operations)) := by
  -- Each operation hands its own ledger on to those after it.
  induction run generalizing ledger with
  | nil host => exact accounted
  | cons permitted later ih =>
      obtain ⟨now, onward⟩ := List.forall_mem_cons.mp isSeen
      rw [history, Ledger.after_append]
      exact ih (wellFormed.perform permitted) onward
        (accounted_perform wellFormed.cache.isParsed permitted nothing now accounted)

/-- In every state that a run reaches, each entry is as its ledger has it: the memo is within its
bound, which is twice the number of slots that the last prune kept, or 64 if that is more. All of
these belonged to messages that were alive then, in a state that the run passed through. So where at
most so many messages are alive at once, no memo outgrows twice their number, or 64, not even on the
way through a batch. The slot of a live message is lost by no operation that leaves the path
undisturbed, and by no lookups. -/
theorem memo_bounded {registry : Registry} {options : Options} {operations : List Operation}
    (reached : Run (start registry options) operations host) :
    (∀ entry ∈ host.cache.entries,
      entry.memo = ((start registry options).ledger entry.text operations).memo ∧
      entry.memo.length ≤ entry.pruneBound ∧
      entry.pruneBound =
        max 64 (2 * ((start registry options).ledger entry.text operations).kept.length) ∧
      ∃ moment ∈ (start registry options).moments operations,
        moment.live = ((start registry options).ledger entry.text operations).live ∧
        ∀ slot ∈ ((start registry options).ledger entry.text operations).kept,
          moment.alive slot.message = true) ∧
    (∀ cache, Cache.Lookups host.alive host.live host.cache cache → ∀ entry ∈ cache.entries,
      entry.memo.length ≤ entry.pruneBound ∧
      ∀ most, (∀ moment ∈ (start registry options).moments operations,
        moment.live.length ≤ most) → entry.memo.length ≤ max 64 (2 * most)) ∧
    (∀ path, ∀ message ∈ host.live, ∀ result?,
      (∀ operation, host.Permits operation → ¬host.Disturbs path operation →
        host.cache.Remembers path message.identity result? →
          (host.perform operation).cache.Remembers path message.identity result?) ∧
      ∀ early late, Cache.Lookups host.alive host.live early late →
        early.Remembers path message.identity result? →
          late.Remembers path message.identity result?) := by
  have accounted : ∀ path, ∀ seen : List Message → Prop, seen [] →
      (∀ moment ∈ (start registry options).moments operations, seen moment.live) →
      host.cache.Accounted seen path ((start registry options).ledger path operations) :=
    fun _ _ nothing isSeen => reached.accounted (.start registry options) nothing isSeen
      fun _ found => by cases found
  have distinct := reached.nodup_paths
  have isParsed := (WellFormed.run reached (.start registry options)).cache.isParsed
  refine ⟨fun entry member => ?_, fun cache lookups entry member => ?_,
    fun path message living result? => ⟨fun operation permitted quiet => ?_, ?_⟩⟩
  · -- The lists of live messages that were seen are those of the states along the run.
    have accounts := accounted entry.text
      (fun live => ∃ moment ∈ (start registry options).moments operations, moment.live = live)
      ⟨_, mem_moments_self _ operations, rfl⟩ (fun moment isMoment => ⟨moment, isMoment, rfl⟩)
      entry (Cache.entryOf?_of_mem distinct member)
    obtain ⟨moment, isMoment, same⟩ := accounts.seen
    refine ⟨accounts.memo, accounts.fits, accounts.bound, moment, isMoment, same, ?_⟩
    intro slot inKept
    have alive := accounts.alive slot inKept
    rwa [← same] at alive
  · have found : cache.entryOf? entry.text = some entry :=
      Cache.entryOf?_of_mem (lookups.paths_eq ▸ distinct) member
    constructor
    · obtain ⟨ledger, later⟩ := lookups.exists_accounted trivial
        (accounted entry.text (fun _ => True) trivial fun _ _ => trivial)
      exact (later entry found).fits
    · intro most few
      obtain ⟨ledger, later⟩ := lookups.exists_accounted (few host reached.mem_moments)
        (accounted entry.text (fun live => live.length ≤ most) (Nat.zero_le _) few)
      exact (later entry found).length_memo_le (later entry found).seen
  · exact remembers_perform isParsed permitted living quiet
  · intro early late lookups remembers
    exact lookups.remembers (alive_of_mem living) remembers

end Runs

/-- A second message arrives, both are looked up, and the first is dropped and pruned. -/
def turnover : List Operation :=
  [.setPaths ["/a[$n]"], .receive plainEvent, .receive plainEvent, .get "/a[$n]" ⟨0, plainEvent⟩,
    .get "/a[$n]" ⟨1, plainEvent⟩, .drop ⟨0, plainEvent⟩, .prune]

theorem memo_bounded_turnover :
    ∃ host entry slot, Run (start plainRegistry {}) turnover host ∧
      host.cache.entries = [entry] ∧
      ((start plainRegistry {}).ledger "/a[$n]" turnover).kept = [slot] ∧
      slot.message = 1 ∧ entry.memo = [slot] ∧ entry.pruneBound = 64 ∧
      ∃ moment ∈ (start plainRegistry {}).moments turnover, moment.alive 1 = true := by
  have run : Run (start plainRegistry {}) turnover (turnover.foldl perform _) :=
    .cons trivial (.cons trivial (.cons trivial (.cons
      (List.mem_cons_of_mem _ List.mem_cons_self) (.cons List.mem_cons_self
        (.cons trivial (.cons trivial (.nil _)))))))
  obtain ⟨accounts, _, _⟩ := memo_bounded run
  obtain ⟨memo, _, bound, moment, member, _, alive⟩ := accounts _ List.mem_cons_self
  have kept : ((start plainRegistry {}).ledger "/a[$n]" turnover).kept = [_] := rfl
  refine ⟨_, _, _, run, rfl, kept, rfl, memo, bound, moment, member, ?_⟩
  exact alive _ List.mem_cons_self

end Host

end MessageQuery
