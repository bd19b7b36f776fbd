import MessageQuery.Proofs.Cache.Batch

/-!
# Instances in batches

A record holds the instance that is remembered for its message, so the next batch gives it again if
nothing disturbs the path in between. It is different where a lookup has no result, which is where
the registry does not know the topic or its datatype: that there is no result is remembered, but
the empty list in the record is not, and every batch numbers another one.
-/

namespace MessageQuery

namespace Cache

variable {cache : Cache} {path : String} {message : Nat}

/-- At most one result is remembered for a message. -/
theorem Remembers.unique {first second : Option SharedItems}
    (remembers : cache.Remembers path message first)
    (again : cache.Remembers path message second) : first = second := by
  obtain ⟨entry, slot, found, known, rfl⟩ := remembers
  obtain ⟨other, same, isOther, isSame, rfl⟩ := again
  cases found.symm.trans isOther
  cases known.symm.trans isSame
  rfl

/-- A path has results in the messages of a topic exactly if its topic is known. -/
theorem isSome_direct {path : String} {parsed : Path} (parses : Path.parse? path = some parsed)
    (cache : Cache) (snapshot : Globals) (message : Message) :
    (cache.direct snapshot path message).isSome =
      (Walk.rootContext? cache.registry.catalog parsed.topic).isSome := by
  rw [direct_eq, parses, Option.bind_some, Path.items?, Option.isSome_map]
  rfl

end Cache

namespace Host

variable {registry : Registry} {options : Options} {operations between : List Operation}
  {host first second : Host} {messages earlier later : Dict (List Message)} {path : String}
  {record : Record}

theorem Run.isSome_of_remembers (reached : Run (start registry options) operations host)
    {parsed : Path} (parses : Path.parse? path = some parsed) {message : Message}
    (living : message ∈ host.live) {result? : Option SharedItems}
    (remembers : host.cache.Remembers path message.identity result?) :
    result?.isSome = (Walk.rootContext? host.cache.registry.catalog parsed.topic).isSome := by
  have answered : (host.cache.get host.alive path message).1 = .ok result? :=
    congrArg Prod.fst (Cache.get_of_remembers remembers)
  have isParsed := (WellFormed.run reached (.start registry options)).cache.isParsed
  obtain ⟨snapshot, _, same⟩ := reached.coherent.answer_eq_direct isParsed living answered
  rw [← Cache.isSome_direct parses host.cache snapshot message, ← same, Option.isSome_map]

theorem Run.issued {identity : Nat} (run : Run first between second) (wellFormed : first.WellFormed)
    (issued : identity < first.cache.nextIdentity) : identity < second.cache.nextIdentity := by
  have both : second.WellFormed ∧ identity < second.cache.nextIdentity := by
    refine run.preserves (fun host => host.WellFormed ∧ identity < host.cache.nextIdentity) ?_
      ⟨wellFormed, issued⟩
    rintro host operation permitted ⟨formed, before⟩
    exact ⟨formed.perform permitted, issued_perform formed.cache.isParsed permitted before⟩
  exact both.2

/-- What a batch leaves behind of one of its records: the list that it holds is remembered, or else
that there is no result, and the list is a new one. -/
structure Leaves (host : Host) (messages : Dict (List Message)) (path : String) (record : Record) :
    Prop where
  living : record.message ∈ host.live
  issued : record.items.identity < (host.perform (.decode messages)).cache.nextIdentity
  remembered : (host.perform (.decode messages)).cache.Remembers path record.message.identity
      (some record.items) ∨
    (host.perform (.decode messages)).cache.Remembers path record.message.identity none ∧
      host.cache.nextIdentity ≤ record.items.identity

theorem Run.leaves (reached : Run (start registry options) operations host)
    (permitted : host.Permits (.decode messages)) {batch : Batch}
    (given : host.decode messages = .ok batch) {records : List Record}
    (entry : (path, records) ∈ batch) (member : record ∈ records) :
    host.Leaves messages path record := by
  have outcome : Cache.decodeTexts host.alive messages host.cache.paths host.cache =
      (.ok batch, (host.perform (.decode messages)).cache) := by
    rw [← reached.decode_eq, ← given]
    rfl
  have wellFormed := WellFormed.run reached (.start registry options)
  obtain ⟨⟨text, chosen⟩, _, rfl, all⟩ :=
    exists_related_of_mem (Cache.decodeTexts_arise permitted outcome).flip entry
  obtain ⟨message, _, arises⟩ := exists_related_of_mem all.flip member
  obtain ⟨rfl, remembered⟩ := arises.remembered reached.tracks.living
  refine ⟨arises.living, arises.issued wellFormed.arrived wellFormed.cache, ?_⟩
  exact remembered.imp_right fun ⟨remembers, _, fresh⟩ => ⟨remembers, fresh⟩

/-- Two batches with nothing between them that disturbs a path give the same record to a message
that both look up, if the registry knows the topic of the path. Otherwise the two records hold
different instances. -/
theorem instance_eq_iff_known {before after : Batch}
    (reached : Run (start registry options) operations first)
    (permitsEarlier : first.Permits (.decode earlier))
    (givenEarlier : first.decode earlier = .ok before)
    (run : Run (first.perform (.decode earlier)) between second)
    (permitsLater : second.Permits (.decode later)) (givenLater : second.decode later = .ok after)
    (quiet : Undisturbed path (first.perform (.decode earlier)) between)
    {parsed : Path} (parses : Path.parse? path = some parsed) {records others : List Record}
    {other : Record} (inEarlier : (path, records) ∈ before) (member : record ∈ records)
    (inLater : (path, others) ∈ after) (otherMember : other ∈ others)
    (same : other.message = record.message) :
    (other.items.identity = record.items.identity ↔
      (Walk.rootContext? first.cache.registry.catalog parsed.topic).isSome = true) ∧
    ((Walk.rootContext? first.cache.registry.catalog parsed.topic).isSome = true →
      other = record) := by
  have middle := reached.append (.cons permitsEarlier (.nil _))
  have formed := WellFormed.run middle (.start registry options)
  have secondFormed := WellFormed.run (middle.append run) (.start registry options)
  have left := reached.leaves permitsEarlier givenEarlier inEarlier member
  have right := (middle.append run).leaves permitsLater givenLater inLater otherMember
  have settings : Cache.SameSettings first.cache (first.perform (.decode earlier)).cache :=
    (lookups_perform permitsEarlier trivial).settings
  -- What the first batch remembers is what the second one looks up.
  have carry : ∀ result?, (first.perform (.decode earlier)).cache.Remembers path
      record.message.identity result? →
      (second.perform (.decode later)).cache.Remembers path other.message.identity result? := by
    intro result? remembers
    have arrived := formed.arrived record.message left.living
    have living : record.message ∈ second.live := same ▸ right.living
    have kept := run.remembers formed living arrived quiet remembers
    rw [same]
    exact remembers_perform secondFormed.cache.isParsed permitsLater living id kept
  have isKnown : ∀ result?, (first.perform (.decode earlier)).cache.Remembers path
      record.message.identity result? →
      result?.isSome = (Walk.rootContext? first.cache.registry.catalog parsed.topic).isSome := by
    intro result? remembers
    rw [← settings.registry]
    exact middle.isSome_of_remembers parses left.living remembers
  rcases left.remembered with remembers | ⟨remembers, _⟩
  · have known := isKnown _ remembers
    have items : other.items = record.items := by
      rcases right.remembered with again | ⟨again, _⟩
      · exact Option.some.inj (again.unique (carry _ remembers))
      · cases again.unique (carry _ remembers)
    have equal : other = record := by
      cases other
      cases record
      cases same
      cases items
      rfl
    exact ⟨⟨fun _ => known.symm, fun _ => by rw [equal]⟩, fun _ => equal⟩
  · have unknown := isKnown _ remembers
    have differ : other.items.identity ≠ record.items.identity := by
      rcases right.remembered with again | ⟨_, fresh⟩
      · cases again.unique (carry _ remembers)
      · have old := run.issued formed left.issued
        exact Nat.ne_of_gt (Nat.lt_of_lt_of_le old fresh)
    rw [← unknown]
    exact ⟨⟨fun equal => absurd equal differ, nofun⟩, nofun⟩

theorem instance_eq_iff_known_plainHost :
    ∃ record other, plainHost.decode plainMessages = .ok [("/a[$n]", [record])] ∧
      (plainHost.perform (.decode plainMessages)).decode plainMessages =
        .ok [("/a[$n]", [other])] ∧
      other = record := by
  have permitted : plainHost.Permits (.decode plainMessages) :=
    mem_live_of_plainMessages List.mem_cons_self
  have shared := instance_eq_iff_known run_plainHost permitted rfl (.nil _) permitted rfl trivial
    rfl List.mem_cons_self List.mem_cons_self List.mem_cons_self List.mem_cons_self rfl
  exact ⟨_, _, rfl, rfl, shared.2 rfl⟩

/-- A path is declared on a topic that the registry does not know. -/
def strayHost : Host :=
  ((start plainRegistry {}).perform (.setPaths ["/b.x"])).perform
    (.receive { plainEvent with topic := "/b" })

def strayMessages : Dict (List Message) :=
  .ofList [("/b", [⟨0, { plainEvent with topic := "/b" }⟩])]

/-- Two batches of the same message give it different instances. -/
theorem instance_ne_of_unknown_topic :
    (∃ operations, Run (start plainRegistry {}) operations strayHost) ∧
    strayHost.Permits (.decode strayMessages) ∧
    ∃ record other, strayHost.decode strayMessages = .ok [("/b.x", [record])] ∧
      (strayHost.perform (.decode strayMessages)).decode strayMessages =
        .ok [("/b.x", [other])] ∧
      other.message = record.message ∧ other.items.identity ≠ record.items.identity := by
  have run : Run (start plainRegistry {})
      [.setPaths ["/b.x"], .receive { plainEvent with topic := "/b" }] strayHost :=
    .cons trivial (.cons trivial (.nil _))
  refine ⟨⟨_, run⟩, ?_, _, _, rfl, rfl, rfl, Nat.one_ne_zero⟩
  intro topic chosen isChosen message member
  have isGiven : (if topic = "/b" then some _ else none) = some chosen := isChosen
  split at isGiven
  · cases isGiven
    exact member
  · cases isGiven

end Host

end MessageQuery
