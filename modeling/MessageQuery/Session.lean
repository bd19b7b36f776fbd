import MessageQuery.Cache.Lookup

/-!
# Sessions

A session is the host of a cache. It holds named registries and named messages, of which the
named ones and those of a flood under way are alive, and it numbers result lists in the order in
which it shows them.
-/

namespace MessageQuery

structure Session where
  cache : Cache
  registries : Dict Registry
  messages : Dict Message
  nextRegistry : Nat
  nextMessage : Nat
  /-- The identities of the result lists shown so far. -/
  shown : List Nat

namespace Session

def start (options : Options) : Session :=
  ⟨.empty ⟨0, .empty⟩ options, .empty, .empty, 1, 0, []⟩

/-- Whether a message is still held by its name. -/
def alive (session : Session) (identity : Nat) : Bool :=
  session.messages.entries.any fun entry => entry.2.identity == identity

/-! ## Registries -/

/-- Stores a catalog as a registry of a new generation; true if no stored registry has it. -/
def storeRegistry (name : String) (catalog : Catalog) (session : Session) : Bool × Session :=
  let fresh := session.registries.entries.all fun entry =>
    entry.2.generation != session.nextRegistry
  (fresh,
    { session with
      registries := session.registries.insert name ⟨session.nextRegistry, catalog⟩
      nextRegistry := session.nextRegistry + 1 })

/-- The names of the registry in use. -/
def registryNames (session : Session) : List String :=
  (session.registries.entries.filter fun entry =>
    entry.2.generation == session.cache.registry.generation).map Prod.fst

/-! ## Messages -/

def storeMessage (name : String) (event : MessageEvent) (session : Session) : Session :=
  { session with
    messages := session.messages.insert name ⟨session.nextMessage, event⟩
    nextMessage := session.nextMessage + 1 }

def dropMessage (name : String) (session : Session) : Session :=
  { session with messages := session.messages.erase name }

/-- The first name under which a message is held. -/
def nameOf? (session : Session) (message : Message) : Option String :=
  (session.messages.entries.find? fun entry => entry.2.identity == message.identity).map Prod.fst

/-! ## Results -/

/-- The number of a result list, counted by first appearance. -/
def number (identity : Nat) (session : Session) : Nat × Session :=
  match session.shown.idxOf? identity with
  | some index => (index, session)
  | none => (session.shown.length, { session with shown := session.shown ++ [identity] })

def get (path : String) (message : Message) (session : Session) :
    Except QueryError (Option (Nat × List Item)) × Session :=
  match session.cache.get session.alive path message with
  | (.error error, cache) => (.error error, { session with cache })
  | (.ok none, cache) => (.ok none, { session with cache })
  | (.ok (some shared), cache) =>
      let (index, after) := { session with cache }.number shared.identity
      (.ok (some (index, shared.items)), after)

def numberRecords : List Record → Session → List (Nat × Record) × Session
  | [], session => ([], session)
  | record :: rest, session =>
      let (index, after) := session.number record.items.identity
      let (later, last) := numberRecords rest after
      ((index, record) :: later, last)

def numberBatch : Batch → Session → List (String × List (Nat × Record)) × Session
  | [], session => ([], session)
  | (path, records) :: rest, session =>
      let (numbered, after) := session.numberRecords records
      let (later, last) := numberBatch rest after
      ((path, numbered) :: later, last)

/-- A batch over the named messages, and the same batch with its lists numbered. -/
def decode (messages : Dict (List Message)) (session : Session) :
    Except QueryError (Batch × List (String × List (Nat × Record))) × Session :=
  match session.cache.decode session.alive messages with
  | (.error error, cache) => (.error error, { session with cache })
  | (.ok batch, cache) =>
      let (numbered, after) := { session with cache }.numberBatch batch
      (.ok (batch, numbered), after)

/-! ## Floods -/

/-- How many results of a flood were shared, at once and at its end. -/
structure FloodCount where
  same : Nat
  still : Nat

def sameResult : Option SharedItems → Option SharedItems → Bool
  | none, none => true
  | some first, some second => first.identity == second.identity
  | _, _ => false

def floodBody (index : Nat) : Value :=
  .object [("a", .array [.ofInt index])]

/-- Looks up one new message after the other, each of them twice. Kept messages stay alive and are
returned with their first result. -/
def floodLookups (path topic : String) (keep : Bool) (count : Nat) :
    Nat → List (Message × Option SharedItems) → Nat → Session →
      Except QueryError (Nat × List (Message × Option SharedItems)) × Session
  | 0, kept, same, session => (.ok (same, kept), session)
  | left + 1, kept, same, session =>
      let event := ⟨topic, ⟨0, 0⟩, floodBody (count - (left + 1)), none⟩
      let message : Message := ⟨session.nextMessage, event⟩
      let alive := fun identity =>
        session.alive identity || identity == message.identity ||
          kept.any fun entry => entry.1.identity == identity
      let opened := { session with nextMessage := session.nextMessage + 1 }
      match opened.cache.get alive path message with
      | (.error error, cache) => (.error error, { opened with cache })
      | (.ok first, once) =>
          match once.get alive path message with
          | (.error error, cache) => (.error error, { opened with cache })
          | (.ok second, cache) =>
              floodLookups path topic keep count left
                (if keep then kept ++ [(message, first)] else kept)
                (if sameResult first second then same + 1 else same)
                { opened with cache }

/-- Looks up the kept messages again and counts those with the same list as at first. -/
def floodRecheck (path : String) (alive : Nat → Bool) :
    List (Message × Option SharedItems) → Session → Except QueryError Nat × Session
  | [], session => (.ok 0, session)
  | (message, first) :: rest, session =>
      match session.cache.get alive path message with
      | (.error error, cache) => (.error error, { session with cache })
      | (.ok again, cache) =>
          match floodRecheck path alive rest { session with cache } with
          | (.ok count, last) =>
              (.ok (if again.isSome && sameResult first again then count + 1 else count), last)
          | failed => failed

/-- Looks up many new messages in one path. -/
def flood (path topic : String) (count : Nat) (keep : Bool) (session : Session) :
    Except QueryError FloodCount × Session :=
  match floodLookups path topic keep count count [] 0 session with
  | (.error error, after) => (.error error, after)
  | (.ok (same, kept), after) =>
      let alive := fun identity =>
        after.alive identity || kept.any fun entry => entry.1.identity == identity
      match floodRecheck path alive kept after with
      | (.error error, last) => (.error error, last)
      | (.ok still, last) => (.ok ⟨same, still⟩, last)

end Session

end MessageQuery
