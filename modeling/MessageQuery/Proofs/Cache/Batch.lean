import MessageQuery.Proofs.Bounds
import MessageQuery.Proofs.Cache.Declared
import MessageQuery.Proofs.Cache.Records
import MessageQuery.Proofs.Cache.Transparency
import MessageQuery.Proofs.Path.Soundness

/-!
# Batches

The lookups of a batch go through one cache, one after the other, but none of them changes what
another one answers. So a batch is what its lookups give one by one: a record for each message of
each path that is served, in order. It fails exactly where a lookup fails, and as lookups fail for
every message or for none, at the first path that is blocked and has a message.
-/

namespace MessageQuery

theorem exists_related_of_mem {α β : Type} {related : α → β → Prop} {first : List α}
    {second : List β} (all : List.Forall₂ related first second) {a : α} (member : a ∈ first) :
    ∃ b ∈ second, related a b := by
  induction all with
  | nil => cases member
  | cons here _ ih =>
      rcases List.mem_cons.mp member with rfl | later
      · exact ⟨_, List.mem_cons_self, here⟩
      · obtain ⟨b, inRest, isRelated⟩ := ih later
        exact ⟨b, List.mem_cons_of_mem _ inRest, isRelated⟩

/-! ## Answers -/

namespace Entry

variable {globals : Globals} {strict : Bool} {entry ready : Entry} {resolved? : Option Path}

theorem Resolves.resolve_eq (resolves : Resolves globals strict entry resolved? ready) :
    entry.resolve globals strict = .ok (resolved?, ready) := by
  unfold resolve
  cases resolves with
  | invalid unparsed => rw [unparsed]
  | kept isParsed isResolved => rw [isParsed, isResolved]
  | @fresh parsed isParsed unresolved succeeds =>
      rw [isParsed, unresolved]
      cases strict with
      | false => rfl
      | true =>
          cases outcome : parsed.resolveStrict globals with
          | error cause =>
              have none_fails := succeeds rfl
              rw [outcome] at none_fails
              cases none_fails
          | ok resolved =>
              dsimp only
              rw [if_pos rfl, outcome, ← Path.resolve_of_resolveStrict outcome]
              rfl

/-- With the result stored, the path resolves as before. -/
theorem Resolves.store (resolves : Resolves globals strict entry resolved? ready)
    (alive : Nat → Bool) (slot : Slot) :
    Resolves globals strict (ready.store alive slot) resolved? (ready.store alive slot) := by
  cases resolves with
  | invalid unparsed =>
      apply Resolves.invalid
      rw [parsed?_store, unparsed]
  | kept isParsed isResolved =>
      apply Resolves.kept
      · rw [parsed?_store, isParsed]
      · rw [resolved?_store, isResolved]
  | fresh isParsed _ _ =>
      apply Resolves.kept
      · rw [parsed?_store, isParsed]
      · rw [resolved?_store]

end Entry

namespace Cache

variable {cache after last : Cache} {alive : Nat → Bool} {live : List Message} {path : String}
  {message asked : Message}

/-- What a lookup gives, whatever the identity of the list is. -/
def answer (alive : Nat → Bool) (path : String) (message : Message) (cache : Cache) :
    Except QueryError (Option (List Item)) :=
  (cache.get alive path message).1.map (Option.map SharedItems.items)

theorem answer_eq (cache : Cache) (alive : Nat → Bool) (path : String) (message : Message) :
    cache.answer alive path message =
      match cache.entryOf? path with
      | none => .error (.pathNotCached path)
      | some entry =>
          match entry.lookup? message.identity with
          | some slot => .ok (slot.result?.map SharedItems.items)
          | none => (entry.resolve cache.globals cache.strict).map fun outcome =>
              cache.evaluate outcome.1 message := by
  unfold answer get
  cases cache.entryOf? path with
  | none => rfl
  | some entry =>
      dsimp only
      cases entry.lookup? message.identity with
      | some slot => rfl
      | none =>
          cases entry.resolve cache.globals cache.strict with
          | error cause => rfl
          | ok outcome =>
              obtain ⟨_, shared?, shares, _, items, _⟩ :=
                cache.shareResult_spec (cache.evaluate outcome.1 message)
              dsimp only [Except.map]
              rw [shares, items]

/-- An answer depends on the entry of its path and on the settings. -/
theorem answer_congr (settings : SameSettings cache after)
    (sameEntry : after.entryOf? path = cache.entryOf? path) :
    after.answer alive path message = cache.answer alive path message := by
  rw [answer_eq, answer_eq, sameEntry, settings.globals, settings.strict]
  unfold evaluate
  rw [settings.registry]

theorem answer_of_remembers {result? : Option SharedItems}
    (remembers : cache.Remembers path message.identity result?) :
    cache.answer alive path message = .ok (result?.map SharedItems.items) := by
  unfold answer
  rw [get_of_remembers remembers]
  rfl

/-- No lookup changes an answer about a message that is alive. -/
theorem answer_get {other : String} (living : alive message.identity = true)
    (distinct : asked.identity = message.identity → asked = message) :
    (cache.get alive other asked).2.answer alive path message =
      cache.answer alive path message := by
  refine get_preserves (fun after => after.answer alive path message =
    cache.answer alive path message) rfl fun {entry ready resolved? result? after} evaluates => ?_
  by_cases here : path = other
  · subst here
    have stored := evaluates.view path
    rw [if_pos rfl] at stored
    rw [answer_eq, answer_eq, stored, evaluates.found]
    dsimp only
    by_cases same : asked.identity = message.identity
    · cases distinct same
      have known := Entry.lookup?_store_self alive ready ⟨message.identity, result?⟩
      rw [known, evaluates.unknown, evaluates.resolves.resolve_eq]
      exact congrArg Except.ok evaluates.items
    · have kept : (ready.store alive ⟨asked.identity, result?⟩).lookup? message.identity =
          entry.lookup? message.identity := by
        rw [Entry.lookup?_store_of_ne same living, Entry.lookup?, evaluates.resolves.memo_eq]
        rfl
      rw [kept]
      cases entry.lookup? message.identity with
      | some slot => rfl
      | none =>
          have again := evaluates.resolves.store alive ⟨asked.identity, result?⟩
          dsimp only
          rw [evaluates.settings.globals, evaluates.settings.strict, again.resolve_eq,
            evaluates.resolves.resolve_eq]
          dsimp only [Except.map, evaluate]
          rw [evaluates.settings.registry]
  · apply answer_congr evaluates.settings
    rw [evaluates.view path, if_neg here]

/-- The messages that are alive are told apart by their identities. -/
structure Tracks (alive : Nat → Bool) (live : List Message) : Prop where
  living : ∀ message ∈ live, alive message.identity = true
  distinct : ∀ a ∈ live, ∀ b ∈ live, a.identity = b.identity → a = b

/-- The answers about the messages that are alive are the same. -/
def SameAnswers (alive : Nat → Bool) (live : List Message) (before after : Cache) : Prop :=
  ∀ path, ∀ message ∈ live, after.answer alive path message = before.answer alive path message

theorem SameAnswers.get (tracks : Tracks alive live) (living : asked ∈ live)
    (same : SameAnswers alive live cache after) :
    SameAnswers alive live cache (after.get alive path asked).2 := by
  intro other message member
  have kept : (after.get alive path asked).2.answer alive other message =
      after.answer alive other message :=
    answer_get (tracks.living message member) (tracks.distinct asked living message member)
  exact kept.trans (same other message member)

theorem SameAnswers.share (same : SameAnswers alive live cache after) :
    SameAnswers alive live cache (after.share []).2 := by
  intro other message member
  have kept : (after.share []).2.answer alive other message = after.answer alive other message :=
    answer_congr ⟨rfl, rfl, rfl, rfl⟩ rfl
  exact kept.trans (same other message member)

theorem SameAnswers.of_lookups (tracks : Tracks alive live)
    (lookups : Lookups alive live cache after) : SameAnswers alive live cache after :=
  lookups.preserves (SameAnswers alive live cache) (fun _ _ _ living same => same.get tracks living)
    (fun _ same => same.share) fun _ _ _ => rfl

end Cache

/-! ## Records -/

/-- The list of the result, or an empty one if there is no result. -/
def Record.Holds (record : Record) : Option SharedItems → Prop
  | some items => record.items = items
  | none => record.items.items = []

/-- The record of a message that is alive, with what the cache remembers about it. -/
structure Record.IsOf (live : List Message) (cache : Cache) (path : String) (message : Message)
    (record : Record) : Prop where
  message_eq : record.message = message
  living : message ∈ live
  remembered : ∃ result?, cache.Remembers path message.identity result? ∧ record.Holds result?

namespace Cache

variable {cache last : Cache} {alive : Nat → Bool} {live : List Message} {path : String}
  {messages : Dict (List Message)}

theorem Arises.isOf {message : Message} {record : Record} (tracks : Tracks alive live)
    (arises : Arises alive live path cache last message record) :
    record.IsOf live last path message := by
  obtain ⟨message_eq, remembers | ⟨remembers, empty, _⟩⟩ := arises.remembered tracks.living
  · exact ⟨message_eq, arises.living, some record.items, remembers, rfl⟩
  · exact ⟨message_eq, arises.living, none, remembers, empty⟩

theorem records_of_ok {chosen : List Message} {found : List Record}
    (tracks : Tracks alive live) (living : ∀ message ∈ chosen, message ∈ live)
    (outcome : records alive path chosen cache = (.ok found, last)) :
    List.Forall₂ (fun message record => record.IsOf live last path message) chosen found :=
  (records_arise living outcome).imp fun _ _ arises => arises.isOf tracks

theorem records_of_error {chosen : List Message} {cause : QueryError}
    (tracks : Tracks alive live) (living : ∀ message ∈ chosen, message ∈ live)
    (fails : (records alive path chosen cache).1 = .error cause) :
    ∃ message ∈ chosen, cache.answer alive path message = .error cause := by
  induction chosen generalizing cache with
  | nil => cases fails
  | cons message rest ih =>
      have restLiving : ∀ other ∈ rest, other ∈ live :=
        fun other member => living other (List.mem_cons_of_mem _ member)
      rcases records_cons alive path message rest cache with
        ⟨other, after, answered, stops⟩ | ⟨record, middle, gives, onward⟩
      · rw [stops] at fails
        refine ⟨message, List.mem_cons_self, ?_⟩
        cases fails
        rw [answer, answered]
        rfl
      · have same : SameAnswers alive live cache middle :=
          .of_lookups tracks (gives.lookups (living message List.mem_cons_self))
        have later : (records alive path rest middle).1 = .error cause := by
          rw [onward] at fails
          cases ending : records alive path rest middle with
          | mk later final =>
              rw [ending] at fails
              cases later with
              | error other => exact fails
              | ok found => cases fails
        obtain ⟨other, member, isError⟩ := ih restLiving later
        exact ⟨other, List.mem_cons_of_mem _ member,
          (same path other (restLiving other member)).symm.trans isError⟩

/-! ## Paths -/

/-- The messages in which a path text is looked up, if it is served: none for a text that is no
path, and those of its topic for a path. -/
def chosen? (messages : Dict (List Message)) (text : String) : Option (List Message) :=
  match Path.parse? text with
  | none => some []
  | some path => messages.get? path.topic

/-- The texts that are served, in their order, with the messages in which they are looked up. -/
def served (messages : Dict (List Message)) (texts : List String) :
    List (String × List Message) :=
  texts.filterMap fun text => (chosen? messages text).map fun chosen => (text, chosen)

/-- A path whose lookup fails in one of its messages. -/
def Stops (alive : Nat → Bool) (messages : Dict (List Message)) (cache : Cache) (cause : QueryError)
    (text : String) : Prop :=
  ∃ chosen, chosen? messages text = some chosen ∧
    ∃ message ∈ chosen, cache.answer alive text message = .error cause

def decodeTexts (alive : Nat → Bool) (messages : Dict (List Message)) (texts : List String)
    (cache : Cache) : Except QueryError Batch × Cache :=
  decodePaths alive messages
    (texts.map fun text => (text, (Path.parse? text).map Path.topic)) cache

theorem decodeTexts_cons (text : String) (rest : List String) (cache : Cache) :
    decodeTexts alive messages (text :: rest) cache =
      match chosen? messages text with
      | none => decodeTexts alive messages rest cache
      | some chosen =>
          match records alive text chosen cache with
          | (.error cause, after) => (.error cause, after)
          | (.ok found, after) =>
              match decodeTexts alive messages rest after with
              | (.ok later, last) => (.ok ((text, found) :: later), last)
              | failed => failed := by
  unfold decodeTexts chosen?
  rw [List.map_cons]
  cases Path.parse? text <;> rfl

/-- What precedes the rest of a batch that succeeds. -/
theorem decodeTexts_cons_of_ok {text : String} {rest : List String} {batch : Batch}
    (outcome : decodeTexts alive messages (text :: rest) cache = (.ok batch, last)) :
    (chosen? messages text = none ∧ decodeTexts alive messages rest cache = (.ok batch, last)) ∨
    ∃ chosen found after later, chosen? messages text = some chosen ∧
      records alive text chosen cache = (.ok found, after) ∧
      decodeTexts alive messages rest after = (.ok later, last) ∧
      batch = (text, found) :: later := by
  rw [decodeTexts_cons] at outcome
  cases isChosen : chosen? messages text with
  | none =>
      rw [isChosen] at outcome
      exact .inl ⟨rfl, outcome⟩
  | some chosen =>
      rw [isChosen] at outcome
      dsimp only at outcome
      cases recorded : records alive text chosen cache with
      | mk found after =>
          rw [recorded] at outcome
          cases found with
          | error cause => cases outcome
          | ok found =>
              dsimp only at outcome
              cases ending : decodeTexts alive messages rest after with
              | mk later final =>
                  rw [ending] at outcome
                  cases later with
                  | error cause => cases outcome
                  | ok later =>
                      cases outcome
                      exact .inr ⟨chosen, found, after, later, rfl, recorded, ending, rfl⟩

/-- A batch fails in the path in front, or after it. -/
theorem decodeTexts_cons_of_error {text : String} {rest : List String} {cause : QueryError}
    (fails : (decodeTexts alive messages (text :: rest) cache).1 = .error cause) :
    (chosen? messages text = none ∧ (decodeTexts alive messages rest cache).1 = .error cause) ∨
    (∃ chosen, chosen? messages text = some chosen ∧
      (records alive text chosen cache).1 = .error cause) ∨
    ∃ chosen found after, chosen? messages text = some chosen ∧
      records alive text chosen cache = (.ok found, after) ∧
      (decodeTexts alive messages rest after).1 = .error cause := by
  rw [decodeTexts_cons] at fails
  cases isChosen : chosen? messages text with
  | none =>
      rw [isChosen] at fails
      exact .inl ⟨rfl, fails⟩
  | some chosen =>
      right
      rw [isChosen] at fails
      dsimp only at fails
      cases recorded : records alive text chosen cache with
      | mk found after =>
          rw [recorded] at fails
          cases found with
          | error other =>
              cases fails
              exact .inl ⟨chosen, rfl, by rw [recorded]⟩
          | ok found =>
              dsimp only at fails
              refine .inr ⟨chosen, found, after, rfl, recorded, ?_⟩
              cases ending : decodeTexts alive messages rest after with
              | mk later final =>
                  rw [ending] at fails
                  cases later with
                  | error other => exact fails
                  | ok batch => cases fails

/-- In a cache that reads its texts, a batch goes through the declared ones. -/
theorem decode_eq (isParsed : cache.IsParsed) (distinct : cache.paths.Nodup) :
    cache.decode alive messages = decodeTexts alive messages cache.paths cache := by
  unfold decode decodeTexts pathTopics paths
  rw [List.map_map]
  congr 1
  apply List.map_congr_left
  intro entry member
  have found := entryOf?_of_mem distinct member
  rw [Function.comp_apply, isParsed entry.text entry found]

section Given

variable (given : ∀ topic chosen, messages.get? topic = some chosen →
  ∀ message ∈ chosen, message ∈ live)
include given

theorem living_of_chosen? {text : String} {chosen : List Message}
    (isChosen : chosen? messages text = some chosen) : ∀ message ∈ chosen, message ∈ live := by
  unfold chosen? at isChosen
  split at isChosen
  · cases isChosen
    exact fun _ member => absurd member List.not_mem_nil
  · exact given _ chosen isChosen

theorem stops_iff {after : Cache} (same : SameAnswers alive live cache after) {cause : QueryError}
    {text : String} :
    after.Stops alive messages cause text ↔ cache.Stops alive messages cause text := by
  unfold Stops
  refine exists_congr fun chosen => and_congr_right fun isChosen => ?_
  refine exists_congr fun message => and_congr_right fun member => ?_
  rw [same text message (living_of_chosen? given isChosen message member)]

theorem not_stops {chosen : List Message} {found : List Record} {text : String}
    (same : SameAnswers alive live cache last) (isChosen : chosen? messages text = some chosen)
    (all : List.Forall₂ (fun message record => record.IsOf live last text message) chosen found)
    (cause : QueryError) : ¬cache.Stops alive messages cause text := by
  rw [← stops_iff given same]
  rintro ⟨others, isOther, message, member, isError⟩
  cases isChosen.symm.trans isOther
  obtain ⟨record, _, isOf⟩ := exists_related_of_mem all member
  obtain ⟨result?, remembers, _⟩ := isOf.remembered
  rw [answer_of_remembers remembers] at isError
  cases isError

theorem decodeTexts_arise {texts : List String} {batch : Batch}
    (outcome : decodeTexts alive messages texts cache = (.ok batch, last)) :
    List.Forall₂ (fun (text, chosen) entry => entry.1 = text ∧
        List.Forall₂ (Arises alive live text cache last) chosen entry.2)
      (served messages texts) batch := by
  induction texts generalizing cache batch with
  | nil =>
      cases outcome
      exact .nil
  | cons text rest ih =>
      unfold served
      obtain ⟨isChosen, onward⟩ | ⟨chosen, found, after, later, isChosen, recorded, onward, rfl⟩ :=
        decodeTexts_cons_of_ok outcome
      · rw [List.filterMap_cons_none (by rw [isChosen]; rfl)]
        exact ih onward
      · rw [List.filterMap_cons_some (by rw [isChosen]; rfl)]
        have living := living_of_chosen? given isChosen
        have early : Lookups alive live cache (records alive text chosen cache).2 :=
          lookups_records living
        have late : Lookups alive live after (decodeTexts alive messages rest after).2 :=
          lookups_decodePaths given
        rw [recorded] at early
        rw [onward] at late
        refine .cons ⟨rfl, (records_arise living recorded).imp fun _ _ arises =>
          arises.mono .refl late⟩ ((ih onward).imp ?_)
        rintro ⟨_, _⟩ entry ⟨isText, all⟩
        exact ⟨isText, all.imp fun _ _ arises => arises.mono early .refl⟩

variable (tracks : Tracks alive live)
include tracks

theorem decodeTexts_of_ok {texts : List String} {batch : Batch}
    (outcome : decodeTexts alive messages texts cache = (.ok batch, last)) :
    List.Forall₂ (fun (text, chosen) entry => entry.1 = text ∧
        List.Forall₂ (fun message record => record.IsOf live last text message) chosen entry.2)
      (served messages texts) batch := by
  refine (decodeTexts_arise given outcome).imp ?_
  rintro ⟨_, _⟩ entry ⟨isText, all⟩
  exact ⟨isText, all.imp fun _ _ arises => arises.isOf tracks⟩

theorem decodeTexts_of_error {texts : List String} {cause : QueryError}
    (fails : (decodeTexts alive messages texts cache).1 = .error cause) :
    ∃ text, IsFirst (fun text => ∃ cause, cache.Stops alive messages cause text) texts text ∧
      cache.Stops alive messages cause text := by
  induction texts generalizing cache with
  | nil => cases fails
  | cons text rest ih =>
      obtain ⟨isChosen, onward⟩ | ⟨chosen, isChosen, stopped⟩ |
        ⟨chosen, found, after, isChosen, recorded, onward⟩ := decodeTexts_cons_of_error fails
      · obtain ⟨first, isFirst, stops⟩ := ih onward
        refine ⟨first, isFirst.cons ?_, stops⟩
        rintro ⟨_, chosen, isSome, _⟩
        cases isChosen.symm.trans isSome
      · have living := living_of_chosen? given isChosen
        have stops : cache.Stops alive messages cause text :=
          ⟨chosen, isChosen, records_of_error tracks living stopped⟩
        exact ⟨text, .head ⟨cause, stops⟩, stops⟩
      · have living := living_of_chosen? given isChosen
        have same : SameAnswers alive live cache (records alive text chosen cache).2 :=
          .of_lookups tracks (lookups_records living)
        rw [recorded] at same
        obtain ⟨first, isFirst, stops⟩ := ih onward
        refine ⟨first, .cons ?_ (isFirst.congr fun _ _ => ?_), ?_⟩
        · rintro ⟨other, stopsHere⟩
          exact not_stops given same isChosen (records_of_ok tracks living recorded) other stopsHere
        · exact exists_congr fun _ => stops_iff given same
        · exact (stops_iff given same).mp stops

end Given

end Cache

/-! ## Hosts -/

namespace Host

variable {host : Host} {registry : Registry} {options : Options} {operations : List Operation}
  {messages : Dict (List Message)}

/-- The outcome of a batch. -/
def decode (host : Host) (messages : Dict (List Message)) : Except QueryError Batch :=
  (host.cache.decode host.alive messages).1

/-- A text that is a path, with messages in which it is looked up, of which a bound has a variable
that is missing or no integer. -/
def Blocks (host : Host) (messages : Dict (List Message)) (text : String) : Prop :=
  ∃ path chosen, Path.parse? text = some path ∧
    (∃ name ∈ path.boundNames, host.cache.globals.LacksInteger name) ∧
    messages.get? path.topic = some chosen ∧ chosen ≠ []

/-- The record that a message gets for a path: the list that a lookup gives, or an empty list. The
lookup gave the same items before the batch, and it gives that list after it. -/
structure Serves (host : Host) (messages : Dict (List Message)) (text : String)
    (message : Message) (record : Record) : Prop where
  message_eq : record.message = message
  given : ∃ result?, (host.perform (.decode messages)).ask text message = .ok result? ∧
    record.Holds result? ∧
    (host.ask text message).map (Option.map SharedItems.items) =
      .ok (result?.map SharedItems.items)

theorem Run.tracks (reached : Run (start registry options) operations host) :
    Cache.Tracks host.alive host.live where
  living := fun _ => alive_of_mem
  distinct := (WellFormed.run reached (.start registry options)).distinct

theorem Run.decode_eq (reached : Run (start registry options) operations host) :
    host.cache.decode host.alive messages =
      Cache.decodeTexts host.alive messages host.cache.paths host.cache :=
  Cache.decode_eq (WellFormed.run reached (.start registry options)).cache.isParsed
    reached.nodup_paths

/-- A path stops a batch in strict mode if it is blocked, at its first bound without an integer,
whatever is remembered about its messages. -/
theorem Run.stops_iff (reached : Run (start registry options) operations host) {text : String}
    (declared : text ∈ host.cache.paths) {cause : QueryError} :
    host.cache.Stops host.alive messages cause text ↔
      host.cache.strict = true ∧ ∃ path chosen name, Path.parse? text = some path ∧
        messages.get? path.topic = some chosen ∧ chosen ≠ [] ∧
        IsFirst host.cache.globals.LacksInteger path.boundNames name ∧
        cause = .nonNumericSliceBound name text := by
  have fails : ∀ message, host.cache.answer host.alive text message = .error cause ↔
      host.cache.strict = true ∧ ∃ path, Path.parse? text = some path ∧
        path.resolveStrict host.cache.globals = .error cause := by
    intro message
    rw [← reached.ask_error_iff declared]
    unfold Cache.answer ask
    cases (host.cache.get host.alive text message).1 <;> simp [Except.map]
  unfold Cache.Stops
  simp only [fails]
  constructor
  · rintro ⟨chosen, isChosen, message, member, strict, path, parses, isError⟩
    obtain ⟨name, isFirst, rfl⟩ := Path.resolveStrict_eq_error_iff.mp isError
    unfold Cache.chosen? at isChosen
    rw [parses] at isChosen
    rw [Path.source_of_parse? parses]
    exact ⟨strict, path, chosen, name, parses, isChosen, List.ne_nil_of_mem member, isFirst, rfl⟩
  · rintro ⟨strict, path, chosen, name, parses, isChosen, nonempty, isFirst, rfl⟩
    obtain ⟨message, member⟩ := List.exists_mem_of_ne_nil chosen nonempty
    refine ⟨chosen, ?_, message, member, strict, path, parses, ?_⟩
    · unfold Cache.chosen?
      rw [parses]
      exact isChosen
    · rw [Path.resolveStrict_eq_error_iff, Path.source_of_parse? parses]
      exact ⟨name, isFirst, rfl⟩

theorem Run.exists_stops_iff (reached : Run (start registry options) operations host)
    {text : String} (declared : text ∈ host.cache.paths) :
    (∃ cause, host.cache.Stops host.alive messages cause text) ↔
      host.cache.strict = true ∧ host.Blocks messages text := by
  simp only [reached.stops_iff declared]
  constructor
  · rintro ⟨cause, strict, path, chosen, name, parses, isChosen, nonempty, isFirst, _⟩
    exact ⟨strict, path, chosen, parses, ⟨name, isFirst.mem, isFirst.1⟩, isChosen, nonempty⟩
  · rintro ⟨strict, path, chosen, parses, lacking, isChosen, nonempty⟩
    obtain ⟨name, isFirst⟩ := exists_isFirst_iff.mpr lacking
    exact ⟨_, strict, path, chosen, name, parses, isChosen, nonempty, isFirst, rfl⟩

theorem Run.serves_of_isOf (reached : Run (start registry options) operations host)
    (permitted : host.Permits (.decode messages)) {text : String} {message : Message}
    {record : Record}
    (isOf : record.IsOf host.live (host.cache.decode host.alive messages).2 text message) :
    host.Serves messages text message record := by
  obtain ⟨result?, remembers, holds⟩ := isOf.remembered
  have same : Cache.SameAnswers host.alive host.live host.cache
      (host.cache.decode host.alive messages).2 :=
    .of_lookups reached.tracks (lookups_perform permitted trivial)
  refine ⟨isOf.message_eq, result?, ?_, holds, ?_⟩
  · exact congrArg Prod.fst (Cache.get_of_remembers remembers)
  · exact (same text message isOf.living).symm.trans (Cache.answer_of_remembers remembers)

theorem Run.serves_of_decode (reached : Run (start registry options) operations host)
    (permitted : host.Permits (.decode messages)) {batch : Batch}
    (given : host.decode messages = .ok batch) :
    List.Forall₂ (fun (text, chosen) (key, records) => key = text ∧
        List.Forall₂ (host.Serves messages text) chosen records)
      (Cache.served messages host.cache.paths) batch := by
  have outcome : Cache.decodeTexts host.alive messages host.cache.paths host.cache =
      (.ok batch, (host.cache.decode host.alive messages).2) := by
    rw [← reached.decode_eq, ← given]
    rfl
  refine (Cache.decodeTexts_of_ok permitted reached.tracks outcome).imp ?_
  rintro ⟨text, chosen⟩ ⟨key, records⟩ ⟨isKey, all⟩
  exact ⟨isKey, all.imp fun _ _ isOf => reached.serves_of_isOf permitted isOf⟩

/-- A batch fails where its first blocked path stops it. -/
theorem Run.stops_of_decode (reached : Run (start registry options) operations host)
    (permitted : host.Permits (.decode messages)) {error : QueryError}
    (fails : host.decode messages = .error error) :
    ∃ text, IsFirst (fun text => ∃ cause, host.cache.Stops host.alive messages cause text)
        host.cache.paths text ∧ host.cache.Stops host.alive messages error text := by
  unfold decode at fails
  rw [reached.decode_eq] at fails
  exact Cache.decodeTexts_of_error permitted reached.tracks fails

theorem Run.not_stops_of_decode (reached : Run (start registry options) operations host)
    (permitted : host.Permits (.decode messages)) {batch : Batch}
    (given : host.decode messages = .ok batch) {text : String} (declared : text ∈ host.cache.paths)
    (cause : QueryError) : ¬host.cache.Stops host.alive messages cause text := by
  rintro ⟨chosen, isChosen, message, member, isError⟩
  have isServed : (text, chosen) ∈ Cache.served messages host.cache.paths := by
    refine List.mem_filterMap.mpr ⟨text, declared, ?_⟩
    rw [isChosen]
    rfl
  obtain ⟨entry, _, _, all⟩ := exists_related_of_mem (reached.serves_of_decode permitted given)
    isServed
  obtain ⟨record, _, serves⟩ := exists_related_of_mem all member
  obtain ⟨result?, _, _, before⟩ := serves.given
  exact absurd (isError.symm.trans before) (by simp)

/-- A batch that is given has an entry for each served path, in declared order, with a record for
each message of its topic, in the order of the messages; a text that is no path has no records. A
batch fails exactly if resolution is strict and some path is blocked, and then with the error of
the first such path. -/
theorem decode_spec (reached : Run (start registry options) operations host)
    (permitted : host.Permits (.decode messages)) :
    (∀ batch, host.decode messages = .ok batch →
      List.Forall₂ (fun (text, chosen) (key, records) => key = text ∧
          List.Forall₂ (host.Serves messages text) chosen records)
        (Cache.served messages host.cache.paths) batch) ∧
    ((∃ error, host.decode messages = .error error) ↔
      host.cache.strict = true ∧ ∃ text ∈ host.cache.paths, host.Blocks messages text) ∧
    (∀ error, host.decode messages = .error error → ∃ text path name,
      IsFirst (host.Blocks messages) host.cache.paths text ∧ Path.parse? text = some path ∧
      IsFirst host.cache.globals.LacksInteger path.boundNames name ∧
      error = .nonNumericSliceBound name text) ∧
    (host.cache.strict = false → ∃ batch, host.decode messages = .ok batch) := by
  have error_iff : (∃ error, host.decode messages = .error error) ↔
      host.cache.strict = true ∧ ∃ text ∈ host.cache.paths, host.Blocks messages text := by
    constructor
    · rintro ⟨error, fails⟩
      obtain ⟨text, isFirst, _⟩ := reached.stops_of_decode permitted fails
      obtain ⟨strict, blocks⟩ := (reached.exists_stops_iff isFirst.mem).mp isFirst.1
      exact ⟨strict, text, isFirst.mem, blocks⟩
    · rintro ⟨strict, text, declared, blocks⟩
      obtain ⟨cause, stops⟩ := (reached.exists_stops_iff declared).mpr ⟨strict, blocks⟩
      cases outcome : host.decode messages with
      | error error => exact ⟨error, rfl⟩
      | ok batch =>
          exact absurd stops (reached.not_stops_of_decode permitted outcome declared cause)
  refine ⟨fun batch given => reached.serves_of_decode permitted given, error_iff, ?_, ?_⟩
  · intro error fails
    obtain ⟨text, isFirst, stops⟩ := reached.stops_of_decode permitted fails
    obtain ⟨strict, path, _, name, parses, _, _, lacking, isError⟩ :=
      (reached.stops_iff isFirst.mem).mp stops
    refine ⟨text, path, name, isFirst.congr fun other declared => ?_, parses, lacking, isError⟩
    rw [reached.exists_stops_iff declared]
    exact and_iff_right strict
  · intro lenient
    cases outcome : host.decode messages with
    | ok batch => exact ⟨batch, rfl⟩
    | error error =>
        obtain ⟨strict, _⟩ := error_iff.mp ⟨error, outcome⟩
        rw [lenient] at strict
        cases strict

/-- Resolution is strict; of the declared texts one has no messages and one is no path. -/
def mixedHost : Host :=
  ((start plainRegistry ⟨true⟩).perform (.setPaths ["/b", "a", "/a[$n]"])).perform
    (.receive plainEvent)

def plainMessage : Message :=
  ⟨0, plainEvent⟩

def plainMessages : Dict (List Message) :=
  .ofList [("/a", [plainMessage])]

theorem mem_live_of_plainMessages {live : List Message} (living : plainMessage ∈ live) :
    ∀ topic chosen, plainMessages.get? topic = some chosen →
      ∀ message ∈ chosen, message ∈ live := by
  intro topic chosen isChosen message member
  have isGiven : (if topic = "/a" then some [plainMessage] else none) = some chosen := isChosen
  split at isGiven
  · cases isGiven
    rw [List.mem_singleton.mp member]
    exact living
  · cases isGiven

theorem decode_spec_mixedHost :
    mixedHost.decode plainMessages = .error (.nonNumericSliceBound "n" "/a[$n]") ∧
    mixedHost.Blocks plainMessages "/a[$n]" ∧
    ∃ record, (mixedHost.perform (.setStrict false)).decode plainMessages =
        .ok [("a", []), ("/a[$n]", [record])] ∧
      (mixedHost.perform (.setStrict false)).Serves plainMessages "/a[$n]" plainMessage record := by
  have run : Run (start plainRegistry ⟨true⟩)
      [.setPaths ["/b", "a", "/a[$n]"], .receive plainEvent] mixedHost :=
    .cons trivial (.cons trivial (.nil _))
  have relaxes : Run mixedHost [.setStrict false] (mixedHost.perform (.setStrict false)) :=
    .cons trivial (.nil _)
  have fails : mixedHost.decode plainMessages = .error (.nonNumericSliceBound "n" "/a[$n]") := rfl
  obtain ⟨_, _, first, _⟩ := decode_spec run (mem_live_of_plainMessages List.mem_cons_self)
  obtain ⟨spec, _, _, lenient⟩ :=
    decode_spec (run.append relaxes) (mem_live_of_plainMessages List.mem_cons_self)
  refine ⟨fails, ?_, ?_⟩
  · obtain ⟨text, path, name, isFirst, _, _, isError⟩ := first _ fails
    cases isError
    exact isFirst.1
  · obtain ⟨batch, given⟩ := lenient rfl
    have all := spec batch given
    have shown : Cache.served plainMessages (mixedHost.perform (.setStrict false)).cache.paths =
        [("a", []), ("/a[$n]", [plainMessage])] := rfl
    rw [shown] at all
    obtain ⟨⟨_, _⟩, _, ⟨rfl, none⟩, onward, rfl⟩ := List.forall₂_cons_left_iff.mp all
    obtain ⟨⟨_, _⟩, _, ⟨rfl, one⟩, rest, rfl⟩ := List.forall₂_cons_left_iff.mp onward
    obtain ⟨record, _, serves, last, rfl⟩ := List.forall₂_cons_left_iff.mp one
    cases none
    cases last
    cases rest
    exact ⟨record, given, serves⟩

end Host

end MessageQuery
