import MessageQuery.Proofs.Cache.Batch

/-!
# What failures leave behind

A lookup that fails leaves the cache as it was. A batch that fails has looked up some of its
messages by then, so paths were resolved, results stored and memos pruned. None of it shows. A
lookup does not change what a path resolves to, and the answer about a message that is alive is the
evaluation of what the path resolves to, whether it is remembered or not. So whatever is looked up
later goes as it would have gone without the batch.
-/

namespace MessageQuery

/-! ## Resolutions -/

theorem Entry.resolve_prune (alive : Nat → Bool) (globals : Globals) (strict : Bool)
    (entry : Entry) :
    ((entry.prune alive).resolve globals strict).map Prod.fst =
      (entry.resolve globals strict).map Prod.fst := by
  simp only [resolve, prune]
  cases entry.parsed? with
  | none => rfl
  | some parsed =>
      cases entry.resolved? with
      | some resolved => rfl
      | none =>
          cases strict with
          | false => rfl
          | true =>
              dsimp only
              rw [if_pos rfl, if_pos rfl]
              cases parsed.resolveStrict globals <;> rfl

namespace Cache

variable {cache after last : Cache} {alive : Nat → Bool} {live : List Message}

/-- What a path resolves to, or why it does not. -/
def resolution (cache : Cache) (path : String) : Except QueryError (Option Path) :=
  match cache.entryOf? path with
  | none => .error (.pathNotCached path)
  | some entry => (entry.resolve cache.globals cache.strict).map Prod.fst

theorem resolution_get (alive : Nat → Bool) (asked : String) (message : Message) (cache : Cache)
    (path : String) :
    (cache.get alive asked message).2.resolution path = cache.resolution path := by
  refine get_preserves (fun after => after.resolution path = cache.resolution path) rfl
    fun {_ _ _ result? _} evaluates => ?_
  unfold resolution
  rw [evaluates.view path, evaluates.settings.globals, evaluates.settings.strict]
  by_cases here : path = asked
  · subst here
    have again := evaluates.resolves.store alive ⟨message.identity, result?⟩
    rw [if_pos rfl, evaluates.found]
    dsimp only
    rw [again.resolve_eq, evaluates.resolves.resolve_eq]
    rfl
  · rw [if_neg here]

theorem resolution_prune (alive : Nat → Bool) (cache : Cache) (path : String) :
    (cache.prune alive).resolution path = cache.resolution path := by
  unfold resolution
  rw [entryOf?_prune]
  cases cache.entryOf? path with
  | none => rfl
  | some entry => exact entry.resolve_prune alive cache.globals cache.strict

/-- Nothing has changed that an answer about a message could show. -/
structure SameOutlook (before after : Cache) : Prop where
  paths : after.paths = before.paths
  settings : SameSettings before after
  resolution : ∀ path, after.resolution path = before.resolution path

namespace SameOutlook

theorem refl (cache : Cache) : SameOutlook cache cache :=
  ⟨rfl, .refl cache, fun _ => rfl⟩

theorem symm (same : SameOutlook cache after) : SameOutlook after cache where
  paths := same.paths.symm
  settings := ⟨same.settings.registry.symm, same.settings.globals.symm, same.settings.strict.symm,
    same.settings.generation.symm⟩
  resolution := fun path => (same.resolution path).symm

theorem trans (early : SameOutlook cache after) (late : SameOutlook after last) :
    SameOutlook cache last where
  paths := late.paths.trans early.paths
  settings := early.settings.trans late.settings
  resolution := fun path => (late.resolution path).trans (early.resolution path)

theorem of_lookups (lookups : Lookups alive live cache after) : SameOutlook cache after := by
  refine lookups.preserves (SameOutlook cache) ?_ ?_ (.refl cache)
  · intro middle path message _ same
    exact same.trans ⟨paths_get alive path message middle,
      sameSettings_get alive path message middle, resolution_get alive path message middle⟩
  · intro middle same
    exact same.trans ⟨rfl, ⟨rfl, rfl, rfl, rfl⟩, fun _ => rfl⟩

theorem of_prune (alive : Nat → Bool) (cache : Cache) : SameOutlook cache (cache.prune alive) :=
  ⟨paths_prune alive cache, ⟨rfl, rfl, rfl, rfl⟩, resolution_prune alive cache⟩

end SameOutlook

/-! ## Answers -/

/-- A slot holds the evaluation of what its path resolves to. -/
theorem Coherent.answer_eq (isParsed : cache.IsParsed) (coherent : cache.Coherent live)
    {message : Message} (living : message ∈ live) (alive : Nat → Bool) (path : String) :
    cache.answer alive path message =
      (cache.resolution path).map fun resolved? => cache.evaluate resolved? message := by
  rw [Cache.answer_eq, resolution]
  cases found : cache.entryOf? path with
  | none => rfl
  | some entry =>
      dsimp only
      cases known : entry.lookup? message.identity with
      | none => cases entry.resolve cache.globals cache.strict <;> rfl
      | some slot =>
          obtain ⟨snapshot, explains⟩ := coherent path entry found
          obtain ⟨member, same⟩ := Entry.mem_of_lookup? known
          have result := explains.results slot member message living same.symm
          have isRead := isParsed path entry found
          dsimp only
          rw [result, direct_eq, Entry.resolve]
          cases parses : Path.parse? path with
          | none =>
              rw [isRead, parses]
              rfl
          | some parsed =>
              cases kept : entry.resolved? with
              | none =>
                  rw [explains.unanswered parsed parses kept] at member
                  cases member
              | some resolved =>
                  obtain ⟨other, isOther, rfl, _⟩ := explains.resolved resolved kept
                  cases parses.symm.trans isOther
                  rw [isRead, parses]
                  rfl

end Cache

/-! ## Contents of batches -/

/-- A message with its items, whatever the identity of their list is. -/
def Record.content (record : Record) : Message × List Item :=
  (record.message, record.items.items)

def Batch.contents (batch : Batch) : List (String × List (Message × List Item)) :=
  batch.map fun (path, records) => (path, records.map Record.content)

theorem mapM_congr {α β : Type} {f g : α → Except QueryError β} {items : List α}
    (same : ∀ item ∈ items, f item = g item) : items.mapM f = items.mapM g := by
  induction items with
  | nil => rfl
  | cons item rest ih =>
      rw [List.mapM_cons, List.mapM_cons, same item List.mem_cons_self,
        ih fun later member => same later (List.mem_cons_of_mem _ member)]

namespace Cache

variable {cache after : Cache} {alive : Nat → Bool} {live : List Message} {path : String}
  {messages : Dict (List Message)}

/-- What a batch holds for a message. -/
def contentOf (alive : Nat → Bool) (path : String) (cache : Cache) (message : Message) :
    Except QueryError (Message × List Item) :=
  (cache.answer alive path message).map fun items? => (message, items?.getD [])

theorem Gives.contentOf_eq {message : Message} {record : Record}
    (gives : Gives alive path message cache record after) :
    cache.contentOf alive path message = .ok record.content := by
  unfold contentOf answer
  cases gives with
  | found answered => rw [answered]; rfl
  | empty answered => rw [answered]; rfl

theorem SameAnswers.mapM_contentOf {chosen : List Message}
    (same : SameAnswers alive live cache after) (living : ∀ message ∈ chosen, message ∈ live) :
    chosen.mapM (after.contentOf alive path) = chosen.mapM (cache.contentOf alive path) := by
  refine mapM_congr fun message member => ?_
  unfold contentOf
  rw [same path message (living message member)]

/-- The records of a path hold what the lookups would give one by one. -/
theorem contents_records {chosen : List Message} (tracks : Tracks alive live)
    (living : ∀ message ∈ chosen, message ∈ live) :
    (records alive path chosen cache).1.map (List.map Record.content) =
      chosen.mapM (cache.contentOf alive path) := by
  induction chosen generalizing cache with
  | nil => rfl
  | cons message rest ih =>
      have here := living message List.mem_cons_self
      have restLiving : ∀ other ∈ rest, other ∈ live :=
        fun other member => living other (List.mem_cons_of_mem _ member)
      rw [List.mapM_cons]
      rcases records_cons alive path message rest cache with
        ⟨cause, after, answered, fails⟩ | ⟨record, middle, gives, onward⟩
      · have stops : cache.contentOf alive path message = .error cause := by
          unfold contentOf answer
          rw [answered]
          rfl
        rw [fails, stops]
        rfl
      · have same := SameAnswers.of_lookups tracks (gives.lookups here)
        rw [onward, gives.contentOf_eq, ← same.mapM_contentOf restLiving, ← ih restLiving]
        rcases records alive path rest middle with ⟨error | later, final⟩ <;> rfl

/-- What the served texts give, in their order, or why one of them fails. -/
def contentsOf (alive : Nat → Bool) (messages : Dict (List Message)) (texts : List String)
    (cache : Cache) : Except QueryError (List (String × List (Message × List Item))) :=
  (served messages texts).mapM fun (text, chosen) =>
    (chosen.mapM (cache.contentOf alive text)).map (Prod.mk text)

theorem SameAnswers.contentsOf_eq (same : SameAnswers alive live cache after)
    (given : ∀ topic chosen, messages.get? topic = some chosen →
      ∀ message ∈ chosen, message ∈ live) (texts : List String) :
    after.contentsOf alive messages texts = cache.contentsOf alive messages texts := by
  refine mapM_congr ?_
  rintro ⟨text, chosen⟩ member
  obtain ⟨other, _, isServed⟩ := List.mem_filterMap.mp member
  obtain ⟨others, isChosen, isEntry⟩ := Option.map_eq_some_iff.mp isServed
  cases isEntry
  dsimp only
  rw [same.mapM_contentOf (living_of_chosen? given isChosen)]

/-- A batch holds what the lookups would give one by one. -/
theorem contents_decodeTexts {texts : List String} (tracks : Tracks alive live)
    (given : ∀ topic chosen, messages.get? topic = some chosen →
      ∀ message ∈ chosen, message ∈ live) :
    (decodeTexts alive messages texts cache).1.map Batch.contents =
      cache.contentsOf alive messages texts := by
  induction texts generalizing cache with
  | nil => rfl
  | cons text rest ih =>
      rw [decodeTexts_cons, contentsOf, served]
      cases isChosen : chosen? messages text with
      | none =>
          rw [List.filterMap_cons_none (by rw [isChosen]; rfl)]
          exact ih
      | some chosen =>
          have living := living_of_chosen? given isChosen
          have early : Lookups alive live cache (records alive text chosen cache).2 :=
            lookups_records living
          have contents : (records alive text chosen cache).1.map (List.map Record.content) =
              chosen.mapM (cache.contentOf alive text) := contents_records tracks living
          rw [List.filterMap_cons_some (by rw [isChosen]; rfl), List.mapM_cons]
          dsimp only
          rw [← contents]
          cases recorded : records alive text chosen cache with
          | mk found middle =>
              rw [recorded] at early
              cases found with
              | error cause => rfl
              | ok found =>
                  have onward : (decodeTexts alive messages rest middle).1.map Batch.contents =
                      cache.contentsOf alive messages rest :=
                    ih.trans ((SameAnswers.of_lookups tracks early).contentsOf_eq given rest)
                  rw [contentsOf, served] at onward
                  rw [← onward]
                  dsimp only
                  rcases decodeTexts alive messages rest middle with ⟨error | later, final⟩ <;> rfl

end Cache

/-! ## Hosts -/

/-- The operations that only look up, and those that leave the cache alone or prune it. -/
def Operation.Reads : Operation → Prop
  | .prune | .get _ _ | .decode _ | .receive _ | .drop _ => True
  | _ => False

/-- What an operation that reads gives, whatever the identities of lists are. -/
inductive Outcome where
  | lookup (answer : Except QueryError (Option (List Item)))
  | batch (contents : Except QueryError (List (String × List (Message × List Item))))
  | done

namespace Host

variable {registry : Registry} {options : Options} {before earlier later : List Operation}
  {first second last : Host} {operation : Operation} {operations : List Operation}

def outcome (host : Host) : Operation → Outcome
  | .get path message => .lookup (host.cache.answer host.alive path message)
  | .decode messages => .batch ((host.decode messages).map Batch.contents)
  | _ => .done

/-- The outcomes of the operations, where each is performed after those before it. -/
def outcomes : Host → List Operation → List Outcome
  | _, [] => []
  | host, operation :: rest => host.outcome operation :: outcomes (host.perform operation) rest

/-- A lookup that fails leaves no trace. -/
theorem perform_get_of_error {host : Host} {path : String} {message : Message} {error : QueryError}
    (failed : host.ask path message = .error error) : host.perform (.get path message) = host := by
  have answers := host.cache.get_answers host.alive path message
  have unchanged : (host.cache.get host.alive path message).2 = host.cache := by
    rw [show (host.cache.get host.alive path message).1 = .error error from failed] at answers
    generalize (host.cache.get host.alive path message).2 = after at answers ⊢
    cases answers with
    | undeclared absent => rfl
    | failed found unknown fails => rfl
  rw [perform, unchanged]
  rfl

/-- What reads changes nothing that an answer could show. -/
theorem sameOutlook_perform {host : Host} (permitted : host.Permits operation)
    (reads : operation.Reads) :
    Cache.SameOutlook host.cache (host.perform operation).cache := by
  cases operation with
  | prune => exact .of_prune host.alive host.cache
  | get path message => exact .of_lookups (lookups_perform permitted trivial)
  | decode messages => exact .of_lookups (lookups_perform permitted trivial)
  | receive event => exact .refl host.cache
  | drop message => exact .refl host.cache
  | _ => exact absurd reads id

/-- Two hosts with the same messages that nothing tells apart. -/
structure SameOutlook (first second : Host) : Prop where
  live : second.live = first.live
  nextMessage : second.nextMessage = first.nextMessage
  cache : Cache.SameOutlook first.cache second.cache

namespace SameOutlook

theorem permits (same : SameOutlook first second) (reads : operation.Reads)
    (permitted : first.Permits operation) : second.Permits operation := by
  cases operation with
  | get path message =>
      unfold Permits at permitted ⊢
      rw [same.live]
      exact permitted
  | decode messages =>
      unfold Permits at permitted ⊢
      rw [same.live]
      exact permitted
  | prune | receive event | drop message => trivial
  | _ => exact absurd reads id

theorem perform (same : SameOutlook first second) (reads : operation.Reads)
    (permitted : first.Permits operation) :
    SameOutlook (first.perform operation) (second.perform operation) := by
  have left := sameOutlook_perform permitted reads
  have right := sameOutlook_perform (same.permits reads permitted) reads
  have cache := (left.symm.trans same.cache).trans right
  cases operation with
  | receive event =>
      refine ⟨?_, congrArg (· + 1) same.nextMessage, cache⟩
      simp only [Host.perform, same.live, same.nextMessage]
  | drop message =>
      refine ⟨?_, same.nextMessage, cache⟩
      simp only [Host.perform, same.live]
  | prune | get path message | decode messages => exact ⟨same.live, same.nextMessage, cache⟩
  | _ => exact absurd reads id

end SameOutlook

theorem Run.answer_eq (reached : Run (start registry options) before first) {message : Message}
    (living : message ∈ first.live) (path : String) :
    first.cache.answer first.alive path message =
      (first.cache.resolution path).map fun resolved? =>
        first.cache.evaluate resolved? message :=
  reached.coherent.answer_eq (WellFormed.run reached (.start registry options)).cache.isParsed
    living first.alive path

theorem Run.contents_decode (reached : Run (start registry options) before first)
    {messages : Dict (List Message)} (permitted : first.Permits (.decode messages)) :
    (first.decode messages).map Batch.contents =
      first.cache.contentsOf first.alive messages first.cache.paths := by
  rw [decode, reached.decode_eq]
  exact Cache.contents_decodeTexts reached.tracks permitted

/-- Hosts that nothing tells apart give the same outcomes. -/
theorem SameOutlook.outcome_eq (same : SameOutlook first second)
    (reached : Run (start registry options) earlier first)
    (alsoReached : Run (start registry options) later second) (reads : operation.Reads)
    (permitted : first.Permits operation) : second.outcome operation = first.outcome operation := by
  have sameAlive : second.alive = first.alive := by
    unfold alive
    rw [same.live]
  have answers : Cache.SameAnswers first.alive first.live first.cache second.cache := by
    intro path message living
    have there := alsoReached.answer_eq (same.live ▸ living) path
    rw [sameAlive, same.cache.resolution path] at there
    rw [there, reached.answer_eq living path]
    unfold Cache.evaluate
    rw [same.cache.settings.registry]
  cases operation with
  | get path message =>
      rw [outcome, outcome, sameAlive, answers path message permitted]
  | decode messages =>
      rw [outcome, outcome, reached.contents_decode permitted,
        alsoReached.contents_decode (same.permits reads permitted), sameAlive,
        same.cache.paths, answers.contentsOf_eq permitted]
  | _ => rfl

theorem SameOutlook.outcomes_eq (same : SameOutlook first second)
    (reached : Run (start registry options) earlier first)
    (alsoReached : Run (start registry options) later second) (run : Run first operations last)
    (reads : ∀ operation ∈ operations, operation.Reads) :
    second.outcomes operations = first.outcomes operations := by
  induction run generalizing second earlier later with
  | nil host => rfl
  | cons permitted _ ih =>
      have here := reads _ List.mem_cons_self
      have alsoPermitted := same.permits here permitted
      rw [outcomes, outcomes, same.outcome_eq reached alsoReached here permitted]
      rw [ih (same.perform here permitted) (reached.append (.cons permitted (.nil _)))
        (alsoReached.append (.cons alsoPermitted (.nil _)))
        fun operation member => reads operation (List.mem_cons_of_mem _ member)]

/-- A lookup that fails changes nothing. A batch, whether it fails or not, keeps the declared paths,
the settings and all that is remembered about messages that are alive, and every sequence of
lookups, batches and prunings after it has the outcomes that it would have had without the batch. -/
theorem failures_leave_no_trace {host : Host}
    (reached : Run (start registry options) before host) :
    (∀ path message error, host.ask path message = .error error →
      host.perform (.get path message) = host) ∧
    ∀ messages, host.Permits (.decode messages) →
      (host.perform (.decode messages)).cache.paths = host.cache.paths ∧
      Cache.SameSettings host.cache (host.perform (.decode messages)).cache ∧
      (∀ path message result?, message ∈ host.live →
        host.cache.Remembers path message.identity result? →
        (host.perform (.decode messages)).cache.Remembers path message.identity result?) ∧
      ∀ following last, Run host following last → (∀ operation ∈ following, operation.Reads) →
        (host.perform (.decode messages)).outcomes following = host.outcomes following := by
  refine ⟨fun _ _ _ => perform_get_of_error, fun messages permitted => ?_⟩
  have outlook : Cache.SameOutlook host.cache (host.perform (.decode messages)).cache :=
    sameOutlook_perform permitted trivial
  have isParsed := (WellFormed.run reached (.start registry options)).cache.isParsed
  refine ⟨outlook.paths, outlook.settings, ?_, ?_⟩
  · intro path message result? living remembers
    exact remembers_perform isParsed permitted living id remembers
  · intro following last run reads
    have same : SameOutlook host (host.perform (.decode messages)) := ⟨rfl, rfl, outlook⟩
    exact same.outcomes_eq reached (reached.append (.cons permitted (.nil _))) run reads

/-- Another path is looked up before the batch fails. -/
theorem failures_leave_no_trace_mixedHost :
    ∃ messages, mixedHost.decode messages = .error (.nonNumericSliceBound "n" "/a[$n]") ∧
      (mixedHost.perform (.decode messages)).cache.Remembers "/b" 0 none ∧
      mixedHost.perform (.get "/a[$n]" plainMessage) = mixedHost ∧
      (mixedHost.perform (.decode messages)).cache.paths = mixedHost.cache.paths ∧
      (mixedHost.perform (.decode messages)).outcomes [.get "/b" plainMessage, .prune] =
        mixedHost.outcomes [.get "/b" plainMessage, .prune] := by
  have run : Run (start plainRegistry ⟨true⟩)
      [.setPaths ["/b", "a", "/a[$n]"], .receive plainEvent] mixedHost :=
    .cons trivial (.cons trivial (.nil _))
  let messages : Dict (List Message) := .ofList [("/a", [plainMessage]), ("/b", [plainMessage])]
  have permitted : mixedHost.Permits (.decode messages) := by
    intro topic chosen isChosen message member
    have isGiven : (if topic = "/a" then some [plainMessage]
      else if topic = "/b" then some [plainMessage] else none) = some chosen := isChosen
    have isPlain : chosen = [plainMessage] := by
      split at isGiven
      · exact (Option.some.inj isGiven).symm
      · split at isGiven
        · exact (Option.some.inj isGiven).symm
        · cases isGiven
    rw [isPlain] at member
    exact member
  have living : plainMessage ∈ mixedHost.live := List.mem_cons_self
  have following : Run mixedHost [.get "/b" plainMessage, .prune]
      ((mixedHost.perform (.get "/b" plainMessage)).perform .prune) :=
    .cons living (.cons trivial (.nil _))
  obtain ⟨lookups, batches⟩ := failures_leave_no_trace run
  obtain ⟨paths, _, _, outcomes⟩ := batches messages permitted
  refine ⟨messages, rfl, ⟨_, _, rfl, rfl, rfl⟩, lookups _ _ _ rfl, paths, ?_⟩
  refine outcomes _ _ following ?_
  intro operation member
  rcases List.mem_cons.mp member with rfl | later
  · trivial
  · rw [List.mem_singleton.mp later]
    trivial

end Host

end MessageQuery
