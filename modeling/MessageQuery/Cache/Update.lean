import MessageQuery.Cache.Basic
import MessageQuery.Options

/-!
# Updating a cache

Memoized results are dropped only where something they depend on changes: the declared paths, the
registry, a global variable that a path refers to, or the treatment of bounds. The generation
counts the changes after which a lookup could answer something else.
-/

namespace MessageQuery

structure Cache where
  registry : Registry
  globals : Globals
  /-- The declared paths in order, each once. -/
  entries : List Entry
  strict : Bool
  generation : Nat
  /-- Result lists have been numbered up to here. -/
  nextIdentity : Nat

namespace Cache

def empty (registry : Registry) (options : Options) : Cache :=
  ⟨registry, .empty, [], options.strictSliceVariables, 0, 0⟩

def options (cache : Cache) : Options :=
  ⟨cache.strict⟩

def paths (cache : Cache) : List String :=
  cache.entries.map Entry.text

def entryOf? (cache : Cache) (path : String) : Option Entry :=
  cache.entries.find? fun entry => entry.text == path

/-- Each declared path with the topic it reads; none for a text that is no path. -/
def pathTopics (cache : Cache) : List (String × Option String) :=
  cache.entries.map fun entry => (entry.text, entry.parsed?.map Path.topic)

def putEntry (cache : Cache) (entry : Entry) : Cache :=
  { cache with
    entries := cache.entries.map fun old => if old.text == entry.text then entry else old }

def nextGeneration (cache : Cache) : Cache :=
  { cache with generation := cache.generation + 1 }

/-! ## Declared paths -/

/-- Texts that stay declared keep their entries. -/
def declare (cache : Cache) (text : String) : Entry :=
  (cache.entryOf? text).getD (Entry.ofText text)

theorem text_declare (cache : Cache) (text : String) : (cache.declare text).text = text := by
  unfold declare entryOf?
  cases found : cache.entries.find? fun entry => entry.text == text with
  | none => rfl
  | some entry => simpa using List.find?_some found

def setPaths (alive : Nat → Bool) (texts : List String) (cache : Cache) : Cache × List Event :=
  let declared := texts.eraseDups
  let added := declared.filter fun text => !cache.paths.contains text
  let removed := cache.paths.filter fun text => !declared.contains text
  let after :=
    { cache with entries := declared.map fun text => (cache.declare text).prune alive }
  let faults := added.filterMap Event.ofText?
  if added.isEmpty && removed.isEmpty then (after, faults)
  else (after.nextGeneration, faults ++ [.pathsChanged added.length removed.length])

theorem paths_setPaths (alive : Nat → Bool) (texts : List String) (cache : Cache) :
    (cache.setPaths alive texts).1.paths = texts.eraseDups := by
  have kept : ∀ text, ((cache.declare text).prune alive).text = text := text_declare cache
  unfold setPaths
  simp only
  split <;> simp [paths, nextGeneration, Function.comp_def, kept]

/-! ## Invalidation -/

def invalidateAll (cache : Cache) : Cache :=
  { cache with entries := cache.entries.map Entry.clear }.nextGeneration

/-- Drops the results of one path; false if it is not declared. -/
def invalidate (path : String) (cache : Cache) : Bool × Cache :=
  match cache.entryOf? path with
  | some entry => (true, (cache.putEntry entry.clear).nextGeneration)
  | none => (false, cache)

/-- Drops the results of the chosen paths and counts them. -/
def invalidateWhere (chosen : Entry → Bool) (cache : Cache) : Nat × Cache :=
  let count := cache.entries.countP chosen
  let cleared := cache.entries.map fun entry => if chosen entry then entry.clear else entry
  let after := { cache with entries := cleared }
  (count, if count = 0 then after else after.nextGeneration)

def invalidateByVariable (name : String) : Cache → Nat × Cache :=
  invalidateWhere fun entry => entry.variableNames.contains name

def prune (alive : Nat → Bool) (cache : Cache) : Cache :=
  { cache with entries := cache.entries.map (Entry.prune alive) }

/-! ## Registry, globals and options -/

/-- A registry of another generation drops every result, even if its contents are the same. -/
def setRegistry (registry : Registry) (cache : Cache) : Cache × List Event :=
  if registry.generation = cache.registry.generation then (cache, [])
  else ({ cache with registry }.invalidateAll, [.registryChanged])

/-- Takes over a snapshot of which the given names have changed. -/
def replaceGlobals (changed : List String) (globals : Globals) (cache : Cache) :
    Cache × List Event :=
  let (count, after) :=
    { cache with globals }.invalidateWhere fun entry =>
      entry.variableNames.any fun name => changed.contains name
  (after, if count = 0 then [] else [.globalsChanged changed count])

/-- The shared names keep the instances that the cache holds. -/
def setGlobalsSharing (shared : String → Bool) (globals : Globals) (cache : Cache) :
    Cache × List Event :=
  cache.replaceGlobals (cache.globals.changedNamesSharing shared globals) globals

def setGlobals : Globals → Cache → Cache × List Event :=
  setGlobalsSharing fun _ => false

/-- The other values are kept, which changes only those that differ from themselves. -/
def setGlobal (name : String) (value : Value) (cache : Cache) : Cache × List Event :=
  cache.setGlobalsSharing (fun other => other != name) (cache.globals.insert name value)

def setStrict (strict : Bool) (cache : Cache) : Cache :=
  if cache.strict = strict then cache else { cache with strict }.invalidateAll

def setOptions (options : Options) : Cache → Cache :=
  setStrict options.strictSliceVariables

end Cache

end MessageQuery
