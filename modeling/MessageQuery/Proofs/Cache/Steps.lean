import MessageQuery.Proofs.Cache.Host

/-!
# What one operation does to one path

An operation that is no lookup leaves the entry of a path blank, or keeps it up to pruning
together with all that its answers depend on. It does the former if it disturbs the path, and the
latter if not. The lookups of a batch are single lookups one after the other, so what single
lookups preserve, a batch preserves.
-/

namespace MessageQuery

/-- Nothing is known but what the text of the path reads as. -/
structure Entry.IsBlank (path : String) (entry : Entry) : Prop where
  parsed : entry.parsed? = Path.parse? path
  unresolved : entry.resolved? = none
  unanswered : entry.memo = []

theorem Entry.isBlank_clear {path : String} {entry : Entry}
    (isParsed : entry.parsed? = Path.parse? path) : entry.clear.IsBlank path :=
  ⟨isParsed, rfl, rfl⟩

theorem Entry.isBlank_prune_ofText (alive : Nat → Bool) (path : String) :
    ((Entry.ofText path).prune alive).IsBlank path :=
  ⟨rfl, rfl, rfl⟩

/-! ## Batches -/

namespace Cache

section Batches

variable {holds : Cache → Prop} {alive : Nat → Bool} {messages : Dict (List Message)}

theorem holds_records_cons (record : Record) (ending : Except QueryError (List Record) × Cache) :
    holds ending.2 → holds (match ending with
      | (.ok later, last) => (.ok (record :: later), last)
      | failed => failed : Except QueryError (List Record) × Cache).2 := by
  intro last
  rcases ending with ⟨error | later, final⟩
  · exact last
  · exact last

theorem records_preserves {path : String} {chosen : List Message}
    (lookup : ∀ cache message, message ∈ chosen → holds cache →
      holds (cache.get alive path message).2)
    (share : ∀ cache, holds cache → holds (cache.share []).2) {cache : Cache}
    (initially : holds cache) : holds (records alive path chosen cache).2 := by
  induction chosen generalizing cache with
  | nil => exact initially
  | cons message rest ih =>
      have after := lookup cache message List.mem_cons_self initially
      have onward : ∀ middle, holds middle → holds (records alive path rest middle).2 :=
        fun middle kept => ih (fun cache other member => lookup cache other
          (List.mem_cons_of_mem _ member)) kept
      unfold records
      generalize cache.get alive path message = outcome at after
      rcases outcome with ⟨error | result?, middle⟩
      · exact after
      · cases result? with
        | some items => exact holds_records_cons _ _ (onward middle after)
        | none => exact holds_records_cons _ _ (onward _ (share middle after))

/-- The records of one path, whatever its messages are, and the paths after it. -/
theorem holds_decodePaths_cons (path : String) (rest : List (String × Option String))
    (outcome : Except QueryError (List Record) × Cache) :
    holds outcome.2 → (∀ middle, holds middle → holds (decodePaths alive messages rest middle).2) →
    holds (match outcome with
      | (.error error, after) => (.error error, after)
      | (.ok found, after) =>
          match decodePaths alive messages rest after with
          | (.ok later, last) => (.ok ((path, found) :: later), last)
          | failed => failed : Except QueryError Batch × Cache).2 := by
  intro after onward
  rcases outcome with ⟨error | found, middle⟩
  · exact after
  · have last := onward middle after
    dsimp only
    generalize decodePaths alive messages rest middle = ending at last ⊢
    rcases ending with ⟨error | later, final⟩
    · exact last
    · exact last

theorem decodePaths_preserves {paths : List (String × Option String)}
    (lookup : ∀ cache path topic chosen message, messages.get? topic = some chosen →
      message ∈ chosen → holds cache → holds (cache.get alive path message).2)
    (share : ∀ cache, holds cache → holds (cache.share []).2) {cache : Cache}
    (initially : holds cache) : holds (decodePaths alive messages paths cache).2 := by
  induction paths generalizing cache with
  | nil => exact initially
  | cons entry rest ih =>
      obtain ⟨path, topic?⟩ := entry
      have onward : ∀ middle, holds middle → holds (decodePaths alive messages rest middle).2 :=
        fun _ kept => ih kept
      unfold decodePaths
      cases topic? with
      | none =>
          exact holds_decodePaths_cons path rest (records alive path [] cache) initially onward
      | some topic =>
          cases isChosen : messages.get? topic with
          | none =>
              simp only [isChosen]
              exact ih initially
          | some chosen =>
              simp only [isChosen]
              exact holds_decodePaths_cons path rest _ (records_preserves
                (fun middle message => lookup middle path topic chosen message isChosen) share
                initially) onward

/-- What every lookup of a live message and every new empty list preserve, a batch preserves. -/
theorem decode_preserves (holds : Cache → Prop)
    (lookup : ∀ cache path topic chosen message, messages.get? topic = some chosen →
      message ∈ chosen → holds cache → holds (cache.get alive path message).2)
    (share : ∀ cache, holds cache → holds (cache.share []).2) {cache : Cache}
    (initially : holds cache) : holds (cache.decode alive messages).2 :=
  decodePaths_preserves lookup share initially

end Batches

/-! ## Lookups -/

/-- The caches that arise from one by looking up live messages and numbering empty lists. -/
inductive Lookups (alive : Nat → Bool) (live : List Message) (cache : Cache) : Cache → Prop where
  | refl : Lookups alive live cache cache
  | get {after : Cache} (earlier : Lookups alive live cache after) (path : String)
      {message : Message} (living : message ∈ live) :
      Lookups alive live cache (after.get alive path message).2
  | share {after : Cache} (earlier : Lookups alive live cache after) :
      Lookups alive live cache (after.share []).2

namespace Lookups

variable {alive : Nat → Bool} {live : List Message} {first second third : Cache}

theorem preserves (lookups : Lookups alive live first second) (holds : Cache → Prop)
    (get : ∀ cache path message, message ∈ live → holds cache →
      holds (cache.get alive path message).2)
    (share : ∀ cache, holds cache → holds (cache.share []).2) (initially : holds first) :
    holds second := by
  induction lookups with
  | refl => exact initially
  | get _ path living ih => exact get _ path _ living ih
  | share _ ih => exact share _ ih

theorem trans (early : Lookups alive live first second) (late : Lookups alive live second third) :
    Lookups alive live first third :=
  late.preserves (Lookups alive live first) (fun _ path _ living before => before.get path living)
    (fun _ before => before.share) early

theorem settings (lookups : Lookups alive live first second) : SameSettings first second :=
  lookups.preserves (SameSettings first)
    (fun cache path message _ before => before.trans (sameSettings_get alive path message cache))
    (fun _ before => before.trans ⟨rfl, rfl, rfl, rfl⟩) (.refl first)

theorem nextIdentity_le (lookups : Lookups alive live first second) :
    first.nextIdentity ≤ second.nextIdentity := by
  refine lookups.preserves (fun after => first.nextIdentity ≤ after.nextIdentity) ?_
    (fun _ before => Nat.le_succ_of_le before) (Nat.le_refl _)
  intro cache path message _ before
  exact get_preserves (fun after => first.nextIdentity ≤ after.nextIdentity) before
    fun evaluates => Nat.le_trans before evaluates.grows

end Lookups

section Batches

variable {alive : Nat → Bool} {live : List Message} {cache : Cache}

theorem lookups_records {path : String} {chosen : List Message}
    (living : ∀ message ∈ chosen, message ∈ live) :
    Lookups alive live cache (records alive path chosen cache).2 :=
  records_preserves (fun _ message member before => before.get path (living message member))
    (fun _ before => before.share) .refl

theorem lookups_decodePaths {messages : Dict (List Message)} {paths : List (String × Option String)}
    (given : ∀ topic chosen, messages.get? topic = some chosen →
      ∀ message ∈ chosen, message ∈ live) :
    Lookups alive live cache (decodePaths alive messages paths cache).2 :=
  decodePaths_preserves
    (fun _ asked topic chosen message isChosen member before =>
      before.get asked (given topic chosen isChosen message member))
    (fun _ before => before.share) .refl

end Batches

end Cache

/-! ## Single operations -/

theorem Entry.mem_variableNames_iff {entry : Entry} {path : String}
    (isParsed : entry.parsed? = Path.parse? path) {name : String} :
    name ∈ entry.variableNames ↔ References path name := by
  unfold variableNames References
  rw [isParsed]
  cases Path.parse? path with
  | none => simp
  | some parsed => simp

/-- Every entry holds what its text reads as. -/
def Cache.IsParsed (cache : Cache) : Prop :=
  ∀ path entry, cache.entryOf? path = some entry → entry.parsed? = Path.parse? path

/-- All that the answers for a path depend on, its entry apart. -/
structure SameView (path : String) (before after : Cache) : Prop where
  registry : after.registry = before.registry
  strict : after.strict = before.strict
  globals : ∀ parsed, Path.parse? path = some parsed →
    Globals.AgreeOn parsed.variableNames before.globals after.globals

theorem SameView.refl (path : String) (cache : Cache) : SameView path cache cache :=
  ⟨rfl, rfl, fun _ _ => .refl _ _⟩

/-- The entry is kept, up to the answers for messages that are gone. -/
def KeepsEntry (alive : Nat → Bool) (path : String) (before after : Cache) : Prop :=
  ∀ old, before.entryOf? path = some old →
    ∃ new, after.entryOf? path = some new ∧ (new = old ∨ new = old.prune alive)

/-- The entries of the paths that are hit are cleared. The other paths keep theirs, and all that
their answers depend on. The generation counts a change of a declared path. -/
structure Clears (hit : String → Prop) (before after : Cache) : Prop where
  cleared : ∀ path, hit path → after.entryOf? path = (before.entryOf? path).map Entry.clear
  spared : ∀ path, ¬hit path → after.entryOf? path = before.entryOf? path
  view : ∀ path, ¬hit path → SameView path before after
  identities : after.nextIdentity = before.nextIdentity
  counts : before.generation ≤ after.generation
  counted : ∀ path entry, hit path → before.entryOf? path = some entry →
    before.generation < after.generation

namespace Clears

variable {hit : String → Prop} {cache : Cache}

theorem unchanged (undeclared : ∀ path, hit path → cache.entryOf? path = none) :
    Clears hit cache cache where
  cleared := by
    intro path isHit
    rw [undeclared path isHit]
    rfl
  spared := fun _ _ => rfl
  view := fun path _ => .refl path cache
  identities := rfl
  counts := Nat.le_refl _
  counted := by
    intro path entry isHit found
    rw [undeclared path isHit] at found
    cases found

theorem invalidateAll (hitAll : ∀ path, hit path) (registry : Registry) (globals : Globals)
    (strict : Bool) :
    Clears hit cache { cache with registry, globals, strict }.invalidateAll where
  cleared := fun path _ =>
    Cache.entryOf?_invalidateAll { cache with registry, globals, strict } path
  spared := fun path spared => absurd (hitAll path) spared
  view := fun path spared => absurd (hitAll path) spared
  identities := rfl
  counts := Nat.le_succ _
  counted := fun _ _ _ _ => Nat.lt_succ_self _

/-- The globals may be replaced, as long as the paths that are spared do not see it. -/
theorem invalidateWhere {chosen : Entry → Bool} (globals : Globals)
    (isHit : ∀ path entry, cache.entryOf? path = some entry → (chosen entry = true ↔ hit path))
    (agree : ∀ path, ¬hit path → ∀ parsed, Path.parse? path = some parsed →
      Globals.AgreeOn parsed.variableNames cache.globals globals) :
    Clears hit cache ({ cache with globals }.invalidateWhere chosen).2 := by
  have entries := Cache.entryOf?_invalidateWhere chosen { cache with globals }
  have count : ∀ path entry, cache.entryOf? path = some entry → hit path →
      cache.entries.countP chosen ≠ 0 := by
    intro path entry found here
    have positive := List.countP_pos_iff.mpr
      ⟨entry, Cache.mem_entries_of_entryOf? found, (isHit path entry found).mpr here⟩
    exact Nat.ne_of_gt positive
  have map_eq : ∀ path (change : Entry → Entry),
      (∀ entry, cache.entryOf? path = some entry →
        (if chosen entry then entry.clear else entry) = change entry) →
      ({ cache with globals }.invalidateWhere chosen).2.entryOf? path =
        (cache.entryOf? path).map change := by
    intro path change same
    rw [entries path]
    exact Option.map_congr same
  refine ⟨fun path here => ?_, fun path spared => ?_, fun path spared => ?_, ?_, ?_, ?_⟩
  · refine map_eq path Entry.clear fun entry found => ?_
    rw [if_pos ((isHit path entry found).mpr here)]
  · rw [map_eq path id fun entry found =>
      if_neg fun here => spared ((isHit path entry found).mp here)]
    exact Option.map_id_apply
  · unfold Cache.invalidateWhere
    simp only
    split <;> exact ⟨rfl, rfl, agree path spared⟩
  · unfold Cache.invalidateWhere
    simp only
    split <;> rfl
  · unfold Cache.invalidateWhere
    simp only
    split
    · exact Nat.le_refl _
    · exact Nat.le_succ _
  · intro path entry here found
    unfold Cache.invalidateWhere
    simp only [if_neg (count path entry found here)]
    exact Nat.lt_succ_self _

theorem invalidate (text : String) : Clears (text = ·) cache (cache.invalidate text).2 := by
  unfold Cache.invalidate
  cases found : cache.entryOf? text with
  | none =>
      refine unchanged ?_
      rintro path rfl
      exact found
  | some entry =>
      have moved := cache.entryOf?_putEntry entry.clear
      have isText : entry.text = text := Cache.text_of_entryOf? found
      rw [show entry.clear.text = text from isText] at moved
      refine ⟨?_, fun path spared => ?_, fun path _ => ⟨rfl, rfl, fun _ _ => .refl _ _⟩, rfl,
        Nat.le_succ _, fun _ _ _ _ => Nat.lt_succ_self _⟩
      · rintro path rfl
        have here := moved text
        rw [found, Option.map_some, if_pos rfl] at here
        rw [found]
        exact here
      · have there := moved path
        simp only [if_neg (Ne.symm spared), Option.map_id_fun'] at there
        exact there

theorem setStrict (strict : Bool) :
    Clears (fun _ => strict ≠ cache.strict) cache (cache.setStrict strict) := by
  unfold Cache.setStrict
  split
  · next same => exact unchanged fun _ differs => absurd same.symm differs
  · next differs =>
      exact invalidateAll (fun _ => Ne.symm differs) cache.registry cache.globals strict

theorem setRegistry (registry : Registry) :
    Clears (fun _ => registry.generation ≠ cache.registry.generation) cache
      (cache.setRegistry registry).1 := by
  unfold Cache.setRegistry
  split
  · next same => exact unchanged fun _ differs => absurd same differs
  · next differs => exact invalidateAll (fun _ => differs) registry cache.globals cache.strict

theorem setGlobalsSharing {shared : String → Bool} {globals : Globals} (isParsed : cache.IsParsed)
    (keeps : Globals.Keeps shared cache.globals globals) :
    Clears (fun path =>
        ∃ name ∈ cache.globals.changedNamesSharing shared globals, References path name)
      cache (cache.setGlobalsSharing shared globals).1 := by
  refine invalidateWhere globals (fun path entry found => ?_) fun path spared parsed parses => ?_
  · rw [List.any_eq_true]
    constructor
    · rintro ⟨name, member, changed⟩
      exact ⟨name, List.contains_iff_mem.mp changed,
        (Entry.mem_variableNames_iff (isParsed path entry found)).mp member⟩
    · rintro ⟨name, changed, refers⟩
      exact ⟨name, (Entry.mem_variableNames_iff (isParsed path entry found)).mpr refers,
        List.contains_iff_mem.mpr changed⟩
  · exact Globals.agreeOn_of_unchanged keeps fun name member changed =>
      spared ⟨name, changed, parsed, parses, member⟩

theorem invalidateByVariable (isParsed : cache.IsParsed) (name : String) :
    Clears (References · name) cache (cache.invalidateByVariable name).2 := by
  refine invalidateWhere cache.globals (fun path entry found => ?_) fun _ _ _ _ => .refl _ _
  rw [List.contains_iff_mem]
  exact Entry.mem_variableNames_iff (isParsed path entry found)

end Clears

theorem Globals.keeps_insert (globals : Globals) (name : String) (value : Value) :
    Globals.Keeps (fun other => other != name) globals (globals.insert name value) := by
  intro other different before after inOld inNew
  rw [Dict.get?_insert, if_neg (by simpa using different), inOld] at inNew
  exact (Option.some.inj inNew).symm

namespace Host

variable {host : Host} {operation : Operation} {path : String}

def IsLookup : Operation → Prop
  | .get _ _ | .decode _ => True
  | _ => False

/-- An operation that looks up takes the cache along lookups of live messages. -/
theorem lookups_perform (permitted : host.Permits operation) (lookup : IsLookup operation) :
    Cache.Lookups host.alive host.live host.cache (host.perform operation).cache := by
  cases operation with
  | get path message => exact Cache.Lookups.refl.get path permitted
  | decode messages => exact Cache.lookups_decodePaths permitted
  | _ => exact absurd lookup id

/-- An operation that is no lookup declares paths, prunes, or clears what it disturbs. -/
theorem perform_cases (isParsed : host.cache.IsParsed) (permitted : host.Permits operation)
    (plain : ¬IsLookup operation) :
    (∃ texts, operation = .setPaths texts) ∨ operation = .prune ∨
      Clears (host.Disturbs · operation) host.cache (host.perform operation).cache := by
  cases operation with
  | setPaths texts => exact .inl ⟨texts, rfl⟩
  | setRegistry registry => exact .inr (.inr (.setRegistry registry))
  | setGlobals shared globals => exact .inr (.inr (.setGlobalsSharing isParsed permitted))
  | setGlobal name value =>
      exact .inr (.inr (.setGlobalsSharing isParsed (Globals.keeps_insert _ _ _)))
  | setStrict strict => exact .inr (.inr (.setStrict strict))
  | setOptions options => exact .inr (.inr (.setStrict options.strictSliceVariables))
  | invalidate text => exact .inr (.inr (.invalidate text))
  | invalidateAll =>
      exact .inr (.inr (.invalidateAll (fun _ => trivial) host.cache.registry host.cache.globals
        host.cache.strict))
  | invalidateByVariable name => exact .inr (.inr (.invalidateByVariable isParsed name))
  | prune => exact .inr (.inl rfl)
  | get text message => exact absurd trivial plain
  | decode messages => exact absurd trivial plain
  | receive event => exact .inr (.inr (.unchanged fun _ disturbs => absurd disturbs id))
  | drop message => exact .inr (.inr (.unchanged fun _ disturbs => absurd disturbs id))

/-- An operation that does not disturb a path keeps its entry and all that its answers depend on. -/
theorem perform_quiet (isParsed : host.cache.IsParsed) (permitted : host.Permits operation)
    (plain : ¬IsLookup operation) (quiet : ¬host.Disturbs path operation) :
    SameView path host.cache (host.perform operation).cache ∧
      KeepsEntry host.alive path host.cache (host.perform operation).cache := by
  rcases perform_cases isParsed permitted plain with ⟨texts, rfl⟩ | rfl | clears
  · have member : path ∈ texts := Decidable.not_not.mp quiet
    refine ⟨?_, fun old found => ⟨old.prune host.alive, ?_, .inr rfl⟩⟩
    · simp only [perform, withCache, Cache.setPaths]
      split <;> exact ⟨rfl, rfl, fun _ _ => .refl _ _⟩
    · have entry := Cache.entryOf?_setPaths host.alive texts host.cache path
      rw [if_pos member, Cache.declare, found] at entry
      exact entry
  · refine ⟨⟨rfl, rfl, fun _ _ => .refl _ _⟩, fun old found => ⟨_, ?_, .inr rfl⟩⟩
    have entry := Cache.entryOf?_prune host.alive host.cache path
    rw [found] at entry
    exact entry
  · refine ⟨clears.view path quiet, fun old found => ⟨old, ?_, .inl rfl⟩⟩
    rw [clears.spared path quiet]
    exact found

theorem not_isLookup_of_disturbs (disturbs : host.Disturbs path operation) :
    ¬IsLookup operation := by
  cases operation with
  | get text message => exact absurd disturbs id
  | decode messages => exact absurd disturbs id
  | _ => exact id

/-- An operation that disturbs a path leaves nothing known about it. -/
theorem isBlank_of_disturbs (isParsed : host.cache.IsParsed) (permitted : host.Permits operation)
    (disturbs : host.Disturbs path operation) {new : Entry}
    (found : (host.perform operation).cache.entryOf? path = some new) : new.IsBlank path := by
  rcases perform_cases isParsed permitted (not_isLookup_of_disturbs disturbs) with
    ⟨texts, rfl⟩ | rfl | clears
  · have entry := Cache.entryOf?_setPaths host.alive texts host.cache path
    rw [if_neg disturbs] at entry
    exact absurd (entry.symm.trans found) (by simp)
  · exact absurd disturbs id
  · rw [clears.cleared path disturbs] at found
    obtain ⟨old, isOld, rfl⟩ := Option.map_eq_some_iff.mp found
    exact Entry.isBlank_clear (isParsed path old isOld)

/-- Only a declaration brings a path in, and then nothing is known about it. -/
theorem declared_of_undeclared (isParsed : host.cache.IsParsed)
    (permitted : host.Permits operation) (plain : ¬IsLookup operation)
    (absent : host.cache.entryOf? path = none) {new : Entry}
    (found : (host.perform operation).cache.entryOf? path = some new) :
    (∃ texts, operation = .setPaths texts ∧ path ∈ texts) ∧ new.IsBlank path := by
  rcases perform_cases isParsed permitted plain with ⟨texts, rfl⟩ | rfl | clears
  · have entry := Cache.entryOf?_setPaths host.alive texts host.cache path
    rw [Cache.declare, absent] at entry
    split at entry
    · next member =>
        cases entry.symm.trans found
        exact ⟨⟨texts, rfl, member⟩, Entry.isBlank_prune_ofText host.alive path⟩
    · exact absurd (entry.symm.trans found) (by simp)
  · have entry := Cache.entryOf?_prune host.alive host.cache path
    rw [absent] at entry
    exact absurd (entry.symm.trans found) (by simp)
  · by_cases disturbs : host.Disturbs path operation
    · rw [clears.cleared path disturbs, absent] at found
      cases found
    · rw [clears.spared path disturbs, absent] at found
      cases found

/-- After an operation that is no lookup, an entry is blank or was kept. -/
theorem isBlank_or_kept (isParsed : host.cache.IsParsed) (permitted : host.Permits operation)
    (plain : ¬IsLookup operation) {new : Entry}
    (found : (host.perform operation).cache.entryOf? path = some new) :
    new.IsBlank path ∨ (SameView path host.cache (host.perform operation).cache ∧
      ∃ old, host.cache.entryOf? path = some old ∧ (new = old ∨ new = old.prune host.alive)) := by
  by_cases disturbs : host.Disturbs path operation
  · exact .inl (isBlank_of_disturbs isParsed permitted disturbs found)
  · cases before : host.cache.entryOf? path with
    | none => exact .inl (declared_of_undeclared isParsed permitted plain before found).2
    | some old =>
        obtain ⟨view, keeps⟩ := perform_quiet isParsed permitted plain disturbs
        obtain ⟨kept, isKept, same⟩ := keeps old before
        cases isKept.symm.trans found
        exact .inr ⟨view, old, rfl, same⟩

end Host

end MessageQuery
