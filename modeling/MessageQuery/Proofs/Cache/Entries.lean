import MessageQuery.Cache.Lookup
import MessageQuery.Proofs.Resolution

/-!
# What the operations do to one entry

Every operation of a cache is seen through the entry of one path. Declaring paths prunes the
entries that stay; an invalidation clears some entries in place; a lookup changes at most the
entry of its own path, and only if the message has no slot yet and the path resolves.
-/

namespace MessageQuery

namespace Entry

/-! ## Slots -/

theorem mem_memo_prune {alive : Nat → Bool} {entry : Entry} {slot : Slot}
    (member : slot ∈ (entry.prune alive).memo) : slot ∈ entry.memo :=
  (List.mem_filter.mp member).1

/-- A pruned memo keeps the slots of the messages that are alive. -/
theorem lookup?_prune {alive : Nat → Bool} {message : Nat} (living : alive message = true)
    (entry : Entry) : (entry.prune alive).lookup? message = entry.lookup? message := by
  have same : (fun slot : Slot => alive slot.message && slot.message == message) =
      fun slot => slot.message == message := by
    funext slot
    by_cases here : slot.message = message
    · simp [here, living]
    · simp [here]
  unfold lookup? prune
  rw [List.find?_filter]
  simp only [Bool.decide_and, Bool.decide_eq_true, same]

theorem mem_memo_store {alive : Nat → Bool} {entry : Entry} {slot other : Slot}
    (member : other ∈ (entry.store alive slot).memo) : other = slot ∨ other ∈ entry.memo := by
  rcases List.mem_cons.mp member with here | there
  · exact .inl here
  · right
    split at there
    · exact mem_memo_prune there
    · exact there

theorem lookup?_store_self (alive : Nat → Bool) (entry : Entry) (slot : Slot) :
    (entry.store alive slot).lookup? slot.message = some slot := by
  simp [lookup?, store]

/-- A new slot leaves the slots of the other messages that are alive. -/
theorem lookup?_store_of_ne {alive : Nat → Bool} {entry : Entry} {slot : Slot} {message : Nat}
    (other : slot.message ≠ message) (living : alive message = true) :
    (entry.store alive slot).lookup? message = entry.lookup? message := by
  have later : (entry.store alive slot).lookup? message =
      (if entry.pruneBound ≤ entry.memo.length then entry.prune alive else entry).lookup?
        message := by
    simp [lookup?, store, other]
  rw [later]
  split
  · exact lookup?_prune living entry
  · rfl

theorem mem_of_lookup? {entry : Entry} {message : Nat} {slot : Slot}
    (found : entry.lookup? message = some slot) : slot ∈ entry.memo ∧ slot.message = message :=
  ⟨List.mem_of_find?_eq_some found, by simpa using List.find?_some found⟩

@[simp] theorem text_store (alive : Nat → Bool) (slot : Slot) (entry : Entry) :
    (entry.store alive slot).text = entry.text := by
  unfold store
  split <;> rfl

@[simp] theorem parsed?_store (alive : Nat → Bool) (slot : Slot) (entry : Entry) :
    (entry.store alive slot).parsed? = entry.parsed? := by
  unfold store
  split <;> rfl

@[simp] theorem resolved?_store (alive : Nat → Bool) (slot : Slot) (entry : Entry) :
    (entry.store alive slot).resolved? = entry.resolved? := by
  unfold store
  split <;> rfl

/-! ## Resolving -/

/-- What a resolution that succeeds has found: no path, the one kept from before, or a new one. -/
inductive Resolves (globals : Globals) (strict : Bool) (entry : Entry) :
    Option Path → Entry → Prop where
  | invalid (unparsed : entry.parsed? = none) : Resolves globals strict entry none entry
  | kept {parsed path : Path} (isParsed : entry.parsed? = some parsed)
      (isResolved : entry.resolved? = some path) :
      Resolves globals strict entry (some path) entry
  | fresh {parsed : Path} (isParsed : entry.parsed? = some parsed)
      (unresolved : entry.resolved? = none)
      (succeeds : strict = true → failure? (parsed.resolveStrict globals) = none) :
      Resolves globals strict entry (some (parsed.resolve globals).path)
        { entry with resolved? := some (parsed.resolve globals).path }

/-- A resolution changes nothing of an entry but the path that it keeps. -/
theorem Resolves.eq_with {globals : Globals} {strict : Bool} {entry ready : Entry}
    {resolved? : Option Path} (resolves : Resolves globals strict entry resolved? ready) :
    ready = { entry with resolved? := ready.resolved? } := by
  cases resolves <;> rfl

theorem Resolves.text_eq {globals : Globals} {strict : Bool} {entry ready : Entry}
    {resolved? : Option Path} (resolves : Resolves globals strict entry resolved? ready) :
    ready.text = entry.text := by
  rw [resolves.eq_with]

theorem Resolves.parsed?_eq {globals : Globals} {strict : Bool} {entry ready : Entry}
    {resolved? : Option Path} (resolves : Resolves globals strict entry resolved? ready) :
    ready.parsed? = entry.parsed? := by
  rw [resolves.eq_with]

theorem Resolves.memo_eq {globals : Globals} {strict : Bool} {entry ready : Entry}
    {resolved? : Option Path} (resolves : Resolves globals strict entry resolved? ready) :
    ready.memo = entry.memo := by
  rw [resolves.eq_with]

/-- A path that reads is kept once it is resolved. -/
theorem Resolves.resolved?_ne_none {globals : Globals} {strict : Bool} {entry ready : Entry}
    {resolved? : Option Path} (resolves : Resolves globals strict entry resolved? ready)
    {parsed : Path} (isParsed : entry.parsed? = some parsed) : ready.resolved? ≠ none := by
  cases resolves with
  | invalid unparsed => rw [unparsed] at isParsed; cases isParsed
  | kept _ isResolved => rw [isResolved]; simp
  | fresh _ _ _ => simp

/-- A resolution fails only if it is strict and nothing was kept from before. -/
structure Fails (globals : Globals) (strict : Bool) (entry : Entry) (error : QueryError) :
    Prop where
  unresolved : entry.resolved? = none
  isStrict : strict = true
  fails : ∃ parsed, entry.parsed? = some parsed ∧
    failure? (parsed.resolveStrict globals) = some error

theorem resolve_spec (globals : Globals) (strict : Bool) (entry : Entry) :
    (∃ resolved? ready, entry.resolve globals strict = .ok (resolved?, ready) ∧
      Resolves globals strict entry resolved? ready) ∨
    ∃ error, entry.resolve globals strict = .error error ∧ Fails globals strict entry error := by
  cases isParsed : entry.parsed? with
  | none =>
      exact .inl ⟨none, entry, by simp [resolve, isParsed], .invalid isParsed⟩
  | some parsed =>
      cases isResolved : entry.resolved? with
      | some path =>
          exact .inl ⟨some path, entry, by simp [resolve, isParsed, isResolved],
            .kept isParsed isResolved⟩
      | none =>
          cases strict with
          | false =>
              exact .inl ⟨_, _, by simp [resolve, isParsed, isResolved]; rfl,
                .fresh isParsed isResolved (by simp)⟩
          | true =>
              cases outcome : parsed.resolveStrict globals with
              | error error =>
                  refine .inr ⟨error, ?_, isResolved, rfl, parsed, isParsed, ?_⟩
                  · simp [resolve, isParsed, isResolved, outcome, bind, Except.bind]
                  · rw [outcome]; rfl
              | ok resolved =>
                  have lenient := Path.resolve_of_resolveStrict outcome
                  refine .inl ⟨_, _, ?_, .fresh isParsed isResolved fun _ => ?_⟩
                  · simp [resolve, isParsed, isResolved, outcome, bind, Except.bind, lenient]
                    rfl
                  · rw [outcome]; rfl

end Entry

namespace Cache

theorem text_of_entryOf? {cache : Cache} {path : String} {entry : Entry}
    (found : cache.entryOf? path = some entry) : entry.text = path := by
  simpa using List.find?_some found

theorem entryOf?_isSome_iff {cache : Cache} {path : String} :
    (cache.entryOf? path).isSome = true ↔ path ∈ cache.paths := by
  simp [entryOf?, paths, List.find?_isSome]

theorem mem_entries_of_entryOf? {cache : Cache} {path : String} {entry : Entry}
    (found : cache.entryOf? path = some entry) : entry ∈ cache.entries :=
  List.mem_of_find?_eq_some found

/-- A result gets an identity that no list had before. -/
theorem shareResult_spec (cache : Cache) (result? : Option (List Item)) :
    ∃ next shared?, cache.shareResult result? = (shared?, { cache with nextIdentity := next }) ∧
      cache.nextIdentity ≤ next ∧ shared?.map SharedItems.items = result? ∧
      ∀ shared, shared? = some shared →
        cache.nextIdentity ≤ shared.identity ∧ shared.identity < next := by
  cases result? with
  | none => exact ⟨cache.nextIdentity, none, rfl, Nat.le_refl _, rfl, by simp⟩
  | some items =>
      refine ⟨cache.nextIdentity + 1, some ⟨cache.nextIdentity, items⟩, rfl,
        Nat.le_succ _, rfl, ?_⟩
      rintro shared ⟨⟩
      exact ⟨Nat.le_refl _, Nat.lt_succ_self _⟩

/-! ## Changing entries in place -/

theorem find?_map_of_text (entries : List Entry) (change : Entry → Entry)
    (keepsText : ∀ entry, (change entry).text = entry.text) (path : String) :
    (entries.map change).find? (fun entry => entry.text == path) =
      (entries.find? fun entry => entry.text == path).map change := by
  rw [List.find?_map]
  simp only [Function.comp_def, keepsText]

theorem text_replaced (entry old : Entry) :
    (if old.text == entry.text then entry else old).text = old.text := by
  by_cases same : old.text = entry.text
  · simp [same]
  · simp [same]

theorem text_cleared (chosen : Entry → Bool) (entry : Entry) :
    (if chosen entry then entry.clear else entry).text = entry.text := by
  split <;> rfl

theorem entryOf?_putEntry (cache : Cache) (entry : Entry) (path : String) :
    (cache.putEntry entry).entryOf? path =
      (cache.entryOf? path).map fun old => if path = entry.text then entry else old := by
  unfold putEntry entryOf?
  rw [find?_map_of_text cache.entries _ (text_replaced entry)]
  cases found : cache.entries.find? fun old => old.text == path with
  | none => rfl
  | some old =>
      have text : old.text = path := text_of_entryOf? found
      simp [text]

/-- An evaluation changes the entry of its own path only. -/
theorem entryOf?_putEntry_store {cache : Cache} {alive : Nat → Bool} {path : String}
    {entry ready : Entry} {slot : Slot} (next : Nat) (found : cache.entryOf? path = some entry)
    (sameText : ready.text = entry.text) (other : String) :
    ({ cache with nextIdentity := next }.putEntry (ready.store alive slot)).entryOf? other =
      if other = path then some (ready.store alive slot) else cache.entryOf? other := by
  have moved := { cache with nextIdentity := next }.entryOf?_putEntry (ready.store alive slot) other
  have text : (ready.store alive slot).text = path := by
    rw [Entry.text_store, sameText, text_of_entryOf? found]
  rw [text] at moved
  rw [moved]
  by_cases here : other = path
  · subst here
    have isEntry : ({ cache with nextIdentity := next } : Cache).entryOf? other = some entry :=
      found
    rw [isEntry, Option.map_some, if_pos rfl, if_pos rfl]
  · simp only [if_neg here, Option.map_id_fun']
    rfl

/-! ## Answers -/

/-- All that no lookup changes. -/
structure SameSettings (before after : Cache) : Prop where
  registry : after.registry = before.registry
  globals : after.globals = before.globals
  strict : after.strict = before.strict
  generation : after.generation = before.generation

theorem SameSettings.refl (cache : Cache) : SameSettings cache cache :=
  ⟨rfl, rfl, rfl, rfl⟩

theorem SameSettings.trans {first second third : Cache} (early : SameSettings first second)
    (late : SameSettings second third) : SameSettings first third :=
  ⟨late.registry.trans early.registry, late.globals.trans early.globals,
    late.strict.trans early.strict, late.generation.trans early.generation⟩

/-- A lookup evaluates the resolved path for a message that the entry does not know. The result
gets an identity of its own, and a slot in the entry of the path. -/
structure Evaluates (alive : Nat → Bool) (path : String) (message : Message) (cache : Cache)
    (entry ready : Entry) (resolved? : Option Path) (result? : Option SharedItems)
    (after : Cache) : Prop where
  found : cache.entryOf? path = some entry
  unknown : entry.lookup? message.identity = none
  resolves : entry.Resolves cache.globals cache.strict resolved? ready
  items : result?.map SharedItems.items = cache.evaluate resolved? message
  numbered : ∀ shared, result? = some shared →
    cache.nextIdentity ≤ shared.identity ∧ shared.identity < after.nextIdentity
  grows : cache.nextIdentity ≤ after.nextIdentity
  settings : SameSettings cache after
  view : ∀ other, after.entryOf? other =
    if other = path then some (ready.store alive ⟨message.identity, result?⟩)
    else cache.entryOf? other

/-- The four ways in which a lookup can go. Only the last one changes the cache. -/
inductive Answers (alive : Nat → Bool) (path : String) (message : Message) (cache : Cache) :
    Except QueryError (Option SharedItems) → Cache → Prop where
  | undeclared (absent : cache.entryOf? path = none) :
      Answers alive path message cache (.error (.pathNotCached path)) cache
  | memoized {entry : Entry} {slot : Slot} (found : cache.entryOf? path = some entry)
      (known : entry.lookup? message.identity = some slot) :
      Answers alive path message cache (.ok slot.result?) cache
  | failed {entry : Entry} {error : QueryError} (found : cache.entryOf? path = some entry)
      (unknown : entry.lookup? message.identity = none)
      (fails : entry.Fails cache.globals cache.strict error) :
      Answers alive path message cache (.error error) cache
  | evaluated {entry ready : Entry} {resolved? : Option Path} {result? : Option SharedItems}
      {after : Cache}
      (evaluates : Evaluates alive path message cache entry ready resolved? result? after) :
      Answers alive path message cache (.ok result?) after

theorem get_answers (alive : Nat → Bool) (path : String) (message : Message) (cache : Cache) :
    Answers alive path message cache (cache.get alive path message).1
      (cache.get alive path message).2 := by
  unfold get
  cases found : cache.entryOf? path with
  | none => exact .undeclared found
  | some entry =>
      cases known : entry.lookup? message.identity with
      | some slot =>
          simp only [known]
          exact .memoized found known
      | none =>
          rcases entry.resolve_spec cache.globals cache.strict with
            ⟨resolved?, ready, outcome, resolves⟩ | ⟨error, outcome, fails⟩
          · obtain ⟨next, result?, shares, grows, items, numbered⟩ :=
              cache.shareResult_spec (cache.evaluate resolved? message)
            simp only [known, outcome, shares]
            exact .evaluated ⟨found, known, resolves, items, numbered, grows, ⟨rfl, rfl, rfl, rfl⟩,
              entryOf?_putEntry_store next found resolves.text_eq⟩
          · simp only [known, outcome]
            exact .failed found known fails

/-- What every evaluation preserves, a lookup preserves. -/
theorem get_preserves (holds : Cache → Prop) {alive : Nat → Bool} {path : String}
    {message : Message} {cache : Cache} (initially : holds cache)
    (evaluated : ∀ {entry ready resolved? result? after},
      Evaluates alive path message cache entry ready resolved? result? after → holds after) :
    holds (cache.get alive path message).2 := by
  have answers := cache.get_answers alive path message
  generalize cache.get alive path message = outcome at answers ⊢
  obtain ⟨answer, after⟩ := outcome
  cases answers with
  | undeclared absent => exact initially
  | memoized found known => exact initially
  | failed found unknown fails => exact initially
  | evaluated evaluates => exact evaluated evaluates

theorem sameSettings_get (alive : Nat → Bool) (path : String) (message : Message)
    (cache : Cache) : SameSettings cache (cache.get alive path message).2 :=
  get_preserves (SameSettings cache) (.refl cache) Evaluates.settings

/-- Lookups neither declare paths nor forget them. -/
theorem isSome_entryOf?_get (alive : Nat → Bool) (asked : String) (message : Message)
    (cache : Cache) (path : String) :
    ((cache.get alive asked message).2.entryOf? path).isSome =
      (cache.entryOf? path).isSome := by
  refine get_preserves (fun after => (after.entryOf? path).isSome = (cache.entryOf? path).isSome)
    rfl fun evaluates => ?_
  rw [evaluates.view path]
  split
  · next here =>
      rw [here, evaluates.found]
      rfl
  · rfl

/-! ## Updates -/

theorem entryOf?_setPaths (alive : Nat → Bool) (texts : List String) (cache : Cache)
    (path : String) :
    (cache.setPaths alive texts).1.entryOf? path =
      if path ∈ texts then some ((cache.declare path).prune alive) else none := by
  have entries : (cache.setPaths alive texts).1.entries =
      texts.eraseDups.map fun text => (cache.declare text).prune alive := by
    unfold setPaths
    simp only
    split <;> rfl
  have texts_eq : ∀ text, ((cache.declare text).prune alive).text = text := text_declare cache
  unfold entryOf?
  rw [entries, List.find?_map]
  simp only [Function.comp_def, texts_eq]
  by_cases member : path ∈ texts
  · rw [if_pos member]
    cases found : texts.eraseDups.find? fun text => text == path with
    | none =>
        have absent := List.find?_eq_none.mp found path (List.mem_eraseDups.mpr member)
        simp at absent
    | some text =>
        have same : text = path := by simpa using List.find?_some found
        rw [same]
        rfl
  · rw [if_neg member]
    have absent : texts.eraseDups.find? (fun text => text == path) = none := by
      rw [List.find?_eq_none]
      intro text inTexts same
      exact member (eq_of_beq same ▸ List.mem_eraseDups.mp inTexts)
    rw [absent]
    rfl

theorem entryOf?_invalidateAll (cache : Cache) (path : String) :
    cache.invalidateAll.entryOf? path = (cache.entryOf? path).map Entry.clear :=
  find?_map_of_text cache.entries Entry.clear (fun _ => rfl) path

theorem entryOf?_invalidateWhere (chosen : Entry → Bool) (cache : Cache) (path : String) :
    (cache.invalidateWhere chosen).2.entryOf? path =
      (cache.entryOf? path).map fun entry => if chosen entry then entry.clear else entry := by
  have moved := find?_map_of_text cache.entries _ (text_cleared chosen) path
  unfold invalidateWhere
  simp only
  split <;> exact moved

theorem entryOf?_prune (alive : Nat → Bool) (cache : Cache) (path : String) :
    (cache.prune alive).entryOf? path = (cache.entryOf? path).map (Entry.prune alive) :=
  find?_map_of_text cache.entries (Entry.prune alive) (fun _ => rfl) path

end Cache

end MessageQuery
