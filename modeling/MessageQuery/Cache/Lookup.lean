import MessageQuery.Cache.Update

/-!
# Looking up in a cache

A lookup gives the memoized result for a message, or evaluates the resolved path once and keeps
the result under a new identity. A failed lookup leaves the cache as it was. A batch looks up
every declared path in the messages of its topic.
-/

namespace MessageQuery

namespace Cache

/-- Gives a list an identity of its own. -/
def share (items : List Item) (cache : Cache) : SharedItems × Cache :=
  (⟨cache.nextIdentity, items⟩, { cache with nextIdentity := cache.nextIdentity + 1 })

def shareResult : Option (List Item) → Cache → Option SharedItems × Cache
  | none, cache => (none, cache)
  | some items, cache =>
      let (shared, after) := cache.share items
      (some shared, after)

/-- The result of a path that may be invalid. -/
def evaluate (cache : Cache) (resolved? : Option Path) (message : Message) :
    Option (List Item) :=
  resolved?.bind fun path => path.items? cache.registry.catalog message.event.message

def get (alive : Nat → Bool) (path : String) (message : Message) (cache : Cache) :
    Except QueryError (Option SharedItems) × Cache :=
  match cache.entryOf? path with
  | none => (.error (.pathNotCached path), cache)
  | some entry =>
      match entry.lookup? message.identity with
      | some slot => (.ok slot.result?, cache)
      | none =>
          match entry.resolve cache.globals cache.strict with
          | .error error => (.error error, cache)
          | .ok (resolved?, ready) =>
              let (result?, after) := cache.shareResult (cache.evaluate resolved? message)
              (.ok result?, after.putEntry (ready.store alive ⟨message.identity, result?⟩))

/-- Only a failed resolution is reported; asking for an undeclared path is the caller's fault. -/
def reportOf {α : Type} : Except QueryError α → List Event
  | .error (.nonNumericSliceBound name path) => [.lookupFailed (.nonNumericSliceBound name path)]
  | _ => []

/-- Evaluates any path text against the current registry and globals, without the memo. -/
def evaluateText (text : String) (event : MessageEvent) (cache : Cache) :
    Option (List Item) × List Event :=
  match Path.parse text with
  | .ok path =>
      ((path.resolve cache.globals).path.items? cache.registry.catalog event.message, [])
  | .error error => (none, [.invalidPath text error])

end Cache

/-! ## Batches -/

/-- A message with the items that a path addresses in it. -/
structure Record where
  message : Message
  items : SharedItems

def Record.write (record : Record) : List Char :=
  Json.writeObject
    [("message", record.message.event.write),
      ("queriedData", Json.writeArray (record.items.items.map Item.write))]

/-- Path texts with their records, in declared order. -/
abbrev Batch := List (String × List Record)

def Batch.toJson (batch : Batch) : String :=
  String.ofList <| Json.writeObject <|
    batch.map fun entry => (entry.1, Json.writeArray (entry.2.map Record.write))

namespace Cache

/-- One record per message. A message without a result gets an empty list of its own. -/
def records (alive : Nat → Bool) (path : String) :
    List Message → Cache → Except QueryError (List Record) × Cache
  | [], cache => (.ok [], cache)
  | message :: messages, cache =>
      match cache.get alive path message with
      | (.error error, after) => (.error error, after)
      | (.ok result?, after) =>
          let (items, numbered) := match result? with
            | some items => (items, after)
            | none => after.share []
          match records alive path messages numbered with
          | (.ok later, last) => (.ok (⟨message, items⟩ :: later), last)
          | failed => failed

/-- The batch of the given paths with their topics. A text that is no path has an empty list; a
path whose topic is not among the given ones is left out. -/
def decodePaths (alive : Nat → Bool) (messages : Dict (List Message)) :
    List (String × Option String) → Cache → Except QueryError Batch × Cache
  | [], cache => (.ok [], cache)
  | (path, topic?) :: paths, cache =>
      let chosen? := match topic? with
        | none => some []
        | some topic => messages.get? topic
      match chosen? with
      | none => decodePaths alive messages paths cache
      | some chosen =>
          match records alive path chosen cache with
          | (.error error, after) => (.error error, after)
          | (.ok found, after) =>
              match decodePaths alive messages paths after with
              | (.ok later, last) => (.ok ((path, found) :: later), last)
              | failed => failed

/-- Every declared path against the messages of its topic. -/
def decode (alive : Nat → Bool) (messages : Dict (List Message)) (cache : Cache) :
    Except QueryError Batch × Cache :=
  cache.decodePaths alive messages cache.pathTopics

end Cache

end MessageQuery
