import MessageQuery.Globals
import MessageQuery.Message
import MessageQuery.Path.Parser
import MessageQuery.Text.Quoted
import MessageQuery.Walk

/-!
# Memo entries

A cache services a declared list of path texts. The entry of a text holds the parsed path, the
path resolved against the current globals once that was needed, and a memo from messages to
results. Messages and result lists have identities; a slot belongs to a message, not to its
contents. A memo that has grown to its bound is pruned of the messages that are gone.
-/

namespace MessageQuery

/-- A message that is shared by identity. -/
structure Message where
  identity : Nat
  event : MessageEvent

/-- A result list that is shared by identity. -/
structure SharedItems where
  identity : Nat
  items : List Item

/-- The result for a message; there is none if the path is invalid or its topic unknown. -/
structure Slot where
  message : Nat
  result? : Option SharedItems

/-- A memo is never pruned below this size. -/
def minPruneBound : Nat :=
  64

structure Entry where
  text : String
  parsed? : Option Path
  resolved? : Option Path
  memo : List Slot
  pruneBound : Nat

namespace Entry

def ofText (text : String) : Entry :=
  ⟨text, Path.parse? text, none, [], minPruneBound⟩

/-- The names of the variables that the path refers to. -/
def variableNames (entry : Entry) : List String :=
  match entry.parsed? with
  | some path => path.variableNames
  | none => []

def clear (entry : Entry) : Entry :=
  { entry with resolved? := none, memo := [], pruneBound := minPruneBound }

/-- Forgets the messages that are not alive; the bound becomes twice what is left. -/
def prune (alive : Nat → Bool) (entry : Entry) : Entry :=
  let kept := entry.memo.filter fun slot => alive slot.message
  { entry with memo := kept, pruneBound := max minPruneBound (kept.length * 2) }

def lookup? (entry : Entry) (message : Nat) : Option Slot :=
  entry.memo.find? fun slot => slot.message == message

def store (alive : Nat → Bool) (slot : Slot) (entry : Entry) : Entry :=
  let roomy := if entry.pruneBound ≤ entry.memo.length then entry.prune alive else entry
  { roomy with memo := slot :: roomy.memo }

/-- The resolved path, which is kept from the first time it is needed. -/
def resolve (globals : Globals) (strict : Bool) (entry : Entry) :
    Except QueryError (Option Path × Entry) :=
  match entry.parsed?, entry.resolved? with
  | none, _ => .ok (none, entry)
  | some _, some resolved => .ok (some resolved, entry)
  | some parsed, none => do
      let resolved ← if strict then parsed.resolveStrict globals else pure (parsed.resolve globals)
      return (some resolved.path, { entry with resolved? := some resolved.path })

end Entry

/-- What is reported while a cache works. -/
inductive Event where
  | invalidPath (text : String) (error : Path.ReadError)
  | pathsChanged (added removed : Nat)
  | registryChanged
  | globalsChanged (names : List String) (invalidated : Nat)
  | lookupFailed (error : QueryError)

namespace Event

def quotedSet (names : List String) : String :=
  "\x7b" ++ String.intercalate ", " (names.map Text.quote) ++ "\x7d"

/-- The level and the text of a report. -/
def render : Event → String
  | .invalidPath text error => "DEBUG invalid message path `" ++ text ++ "`: " ++ error.render text
  | .pathsChanged added removed =>
      "DEBUG cached paths changed: " ++ toString added ++ " added, " ++ toString removed ++
        " removed"
  | .registryChanged => "DEBUG schema registry changed"
  | .globalsChanged names invalidated =>
      "DEBUG global variables " ++ quotedSet names ++ " changed; invalidated " ++
        toString invalidated ++ " paths"
  | .lookupFailed error => "WARN " ++ error.message

/-- The report of a path text that is no path. -/
def ofText? (text : String) : Option Event :=
  match Path.parse text with
  | .ok _ => none
  | .error error => some (.invalidPath text error)

end Event

end MessageQuery
