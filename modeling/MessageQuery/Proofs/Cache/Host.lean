import MessageQuery.Proofs.Cache.Entries

/-!
# Hosts and their runs

A host drives one cache. It receives messages and drops them, and looks up only messages that are
alive; messages are numbered as they arrive, so a number is never used again. A run is a list of
operations, each permitted where it is performed. `Disturbs` says which operations drop what is
known about a path.
-/

namespace MessageQuery

structure Host where
  cache : Cache
  live : List Message
  /-- Messages have been numbered up to here. -/
  nextMessage : Nat

inductive Operation where
  | setPaths (texts : List String)
  | setRegistry (registry : Registry)
  /-- The values of the shared names are the instances that the cache holds. -/
  | setGlobals (shared : String → Bool) (globals : Globals)
  | setGlobal (name : String) (value : Value)
  | setStrict (strict : Bool)
  | setOptions (options : Options)
  | invalidate (path : String)
  | invalidateAll
  | invalidateByVariable (name : String)
  | prune
  | get (path : String) (message : Message)
  | decode (messages : Dict (List Message))
  | receive (event : MessageEvent)
  | drop (message : Message)

/-- Whether a path text is a path that refers to the given variable. -/
def References (path name : String) : Prop :=
  ∃ parsed, Path.parse? path = some parsed ∧ name ∈ parsed.variableNames

namespace Host

def start (registry : Registry) (options : Options) : Host :=
  ⟨.empty registry options, [], 0⟩

def alive (host : Host) (identity : Nat) : Bool :=
  host.live.any fun message => message.identity == identity

theorem alive_of_mem {host : Host} {message : Message} (living : message ∈ host.live) :
    host.alive message.identity = true :=
  List.any_eq_true.mpr ⟨message, living, beq_self_eq_true _⟩

def generation (host : Host) : Nat :=
  host.cache.generation

/-- The answer of a lookup. -/
def ask (host : Host) (path : String) (message : Message) :
    Except QueryError (Option SharedItems) :=
  (host.cache.get host.alive path message).1

def withCache (host : Host) (cache : Cache) : Host :=
  { host with cache }

def perform (host : Host) : Operation → Host
  | .setPaths texts => host.withCache (host.cache.setPaths host.alive texts).1
  | .setRegistry registry => host.withCache (host.cache.setRegistry registry).1
  | .setGlobals shared globals => host.withCache (host.cache.setGlobalsSharing shared globals).1
  | .setGlobal name value => host.withCache (host.cache.setGlobal name value).1
  | .setStrict strict => host.withCache (host.cache.setStrict strict)
  | .setOptions options => host.withCache (host.cache.setOptions options)
  | .invalidate path => host.withCache (host.cache.invalidate path).2
  | .invalidateAll => host.withCache host.cache.invalidateAll
  | .invalidateByVariable name => host.withCache (host.cache.invalidateByVariable name).2
  | .prune => host.withCache (host.cache.prune host.alive)
  | .get path message => host.withCache (host.cache.get host.alive path message).2
  | .decode messages => host.withCache (host.cache.decode host.alive messages).2
  | .receive event =>
      { host with
        live := ⟨host.nextMessage, event⟩ :: host.live
        nextMessage := host.nextMessage + 1 }
  | .drop message =>
      { host with live := host.live.filter fun other => other.identity != message.identity }

/-- Messages are looked up while they are alive, and shared values are the ones held. -/
def Permits (host : Host) : Operation → Prop
  | .setGlobals shared globals => Globals.Keeps shared host.cache.globals globals
  | .get _ message => message ∈ host.live
  | .decode messages =>
      ∀ topic chosen, messages.get? topic = some chosen → ∀ message ∈ chosen, message ∈ host.live
  | _ => True

/-- The operations after which nothing may be known about a path any more. -/
def Disturbs (host : Host) (path : String) : Operation → Prop
  | .setPaths texts => path ∉ texts
  | .setRegistry registry => registry.generation ≠ host.cache.registry.generation
  | .setGlobals shared globals =>
      ∃ name ∈ host.cache.globals.changedNamesSharing shared globals, References path name
  | .setGlobal name value =>
      ∃ changed ∈ host.cache.globals.changedNamesSharing (fun other => other != name)
        (host.cache.globals.insert name value), References path changed
  | .setStrict strict => strict ≠ host.cache.strict
  | .setOptions options => options.strictSliceVariables ≠ host.cache.strict
  | .invalidate text => text = path
  | .invalidateAll => True
  | .invalidateByVariable name => References path name
  | .prune | .get _ _ | .decode _ | .receive _ | .drop _ => False

inductive Run : Host → List Operation → Host → Prop where
  | nil (host : Host) : Run host [] host
  | cons {host last : Host} {operation : Operation} {rest : List Operation}
      (permitted : host.Permits operation) (later : Run (host.perform operation) rest last) :
      Run host (operation :: rest) last

/-- No operation of the list disturbs the path, where each is performed after those before it. -/
def Undisturbed (path : String) : Host → List Operation → Prop
  | _, [] => True
  | host, operation :: rest =>
      ¬host.Disturbs path operation ∧ Undisturbed path (host.perform operation) rest

/-- What every permitted operation preserves holds at the end of a run if it holds before. -/
theorem Run.preserves {first last : Host} {operations : List Operation}
    (run : Run first operations last) (holds : Host → Prop)
    (step : ∀ host operation, host.Permits operation → holds host →
      holds (host.perform operation))
    (initially : holds first) : holds last := by
  induction run with
  | nil host => exact initially
  | cons permitted later ih => exact ih (step _ _ permitted initially)

theorem Run.append {first middle last : Host} {early late : List Operation}
    (before : Run first early middle) (after : Run middle late last) :
    Run first (early ++ late) last := by
  induction before with
  | nil host => exact after
  | cons permitted later ih => exact .cons permitted (ih after)

/-! ## A small host -/

/-- A message on a topic that no schema describes. -/
def plainEvent : MessageEvent :=
  ⟨"/a", ⟨0, 0⟩, .array [.ofInt 7], none⟩

def plainRegistry : Registry :=
  ⟨0, .ofLists [("/a", jsonType)] []⟩

/-- One path is declared, and one message has arrived. -/
def plainHost : Host :=
  ((start plainRegistry {}).perform (.setPaths ["/a[$n]"])).perform (.receive plainEvent)

theorem run_plainHost :
    Run (start plainRegistry {}) [.setPaths ["/a[$n]"], .receive plainEvent] plainHost :=
  .cons trivial (.cons trivial (.nil _))

end Host

end MessageQuery
