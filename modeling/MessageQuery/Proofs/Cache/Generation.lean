import MessageQuery.Proofs.Cache.Sharing
import MessageQuery.Proofs.Cache.Transparency

/-!
# Generations

No operation lowers the generation. It rises with every operation that disturbs a declared path
or that declares a path anew. So under an unchanged generation a result stays remembered, a path
that was not declared is still not declared, and a strict resolution that failed still fails,
since nothing that it depends on has changed.
-/

namespace MessageQuery

namespace Cache

variable {cache : Cache} {path : String}

theorem generation_le_setPaths (alive : Nat → Bool) (texts : List String) (cache : Cache) :
    cache.generation ≤ (cache.setPaths alive texts).1.generation := by
  unfold setPaths
  simp only
  split
  · exact Nat.le_refl _
  · exact Nat.le_succ _

theorem unchanged_iff {texts : List String} :
    ((texts.eraseDups.filter fun text => !cache.paths.contains text).isEmpty &&
      (cache.paths.filter fun text => !texts.eraseDups.contains text).isEmpty) = true ↔
      ∀ path, path ∈ texts ↔ path ∈ cache.paths := by
  rw [Bool.and_eq_true_iff, List.isEmpty_iff, List.isEmpty_iff, List.filter_eq_nil_iff,
    List.filter_eq_nil_iff]
  constructor
  · rintro ⟨noneAdded, noneRemoved⟩ path
    constructor
    · intro declared
      simpa using noneAdded path (List.mem_eraseDups.mpr declared)
    · intro cached
      simpa using noneRemoved path cached
  · intro same
    constructor
    · intro path declared
      simpa using (same path).mp (List.mem_eraseDups.mp declared)
    · intro path cached
      simpa using (same path).mpr cached

theorem generation_setPaths_of_same {alive : Nat → Bool} {texts : List String}
    (same : ∀ path, path ∈ texts ↔ path ∈ cache.paths) :
    (cache.setPaths alive texts).1.generation = cache.generation := by
  unfold setPaths
  simp only [unchanged_iff.mpr same]
  rfl

theorem generation_setPaths_of_changed {alive : Nat → Bool} {texts : List String}
    (changed : ¬∀ path, path ∈ texts ↔ path ∈ cache.paths) :
    (cache.setPaths alive texts).1.generation = cache.generation + 1 := by
  have moved := Bool.eq_false_iff.mpr (mt unchanged_iff.mp changed)
  unfold setPaths
  simp only [moved]
  rfl

/-- The generation rises if the declared paths change. -/
theorem generation_lt_setPaths {alive : Nat → Bool} {texts : List String}
    (changed : ¬(path ∈ texts ↔ path ∈ cache.paths)) :
    cache.generation < (cache.setPaths alive texts).1.generation := by
  rw [generation_setPaths_of_changed fun same => changed (same path)]
  exact Nat.lt_succ_self _

end Cache

namespace Host

variable {host : Host} {operation : Operation} {path : String} {message : Message}

/-! ## Steps -/

theorem lookup_settings (permitted : host.Permits operation) (lookup : IsLookup operation) :
    Cache.SameSettings host.cache (host.perform operation).cache ∧
      ∀ path, ((host.perform operation).cache.entryOf? path).isSome =
        (host.cache.entryOf? path).isSome := by
  have lookups := lookups_perform permitted lookup
  refine ⟨lookups.settings, fun path => ?_⟩
  refine lookups.preserves (fun after => (after.entryOf? path).isSome =
    (host.cache.entryOf? path).isSome) ?_ (fun _ declared => declared) rfl
  intro middle asked message _ declared
  rw [Cache.isSome_entryOf?_get, declared]

theorem generation_le_perform (isParsed : host.cache.IsParsed)
    (permitted : host.Permits operation) :
    host.generation ≤ (host.perform operation).generation := by
  by_cases lookup : IsLookup operation
  · exact Nat.le_of_eq (lookup_settings permitted lookup).1.generation.symm
  · rcases perform_cases isParsed permitted lookup with ⟨texts, rfl⟩ | rfl | clears
    · exact Cache.generation_le_setPaths _ _ _
    · exact Nat.le_refl _
    · exact clears.counts

/-- The generation rises when a declared path is disturbed. -/
theorem generation_lt_of_disturbs (isParsed : host.cache.IsParsed)
    (permitted : host.Permits operation) {entry : Entry}
    (found : host.cache.entryOf? path = some entry) (disturbs : host.Disturbs path operation) :
    host.generation < (host.perform operation).generation := by
  rcases perform_cases isParsed permitted (not_isLookup_of_disturbs disturbs) with
    ⟨texts, rfl⟩ | rfl | clears
  · have declared : path ∈ host.cache.paths := by
      rw [← Cache.entryOf?_isSome_iff, found]
      rfl
    exact Cache.generation_lt_setPaths fun same => disturbs (same.mpr declared)
  · exact absurd disturbs id
  · exact clears.counted path entry disturbs found

/-- The generation rises when a path is declared anew. -/
theorem generation_lt_of_declared (isParsed : host.cache.IsParsed)
    (permitted : host.Permits operation) (absent : host.cache.entryOf? path = none) {entry : Entry}
    (found : (host.perform operation).cache.entryOf? path = some entry) :
    host.generation < (host.perform operation).generation := by
  by_cases lookup : IsLookup operation
  · have same := (lookup_settings permitted lookup).2 path
    rw [absent, found] at same
    cases same
  · obtain ⟨⟨texts, rfl, declared⟩, _⟩ :=
      declared_of_undeclared isParsed permitted lookup absent found
    have unknown : path ∉ host.cache.paths := by
      rw [← Cache.entryOf?_isSome_iff, absent]
      simp
    exact Cache.generation_lt_setPaths fun same => unknown (same.mp declared)

/-- Under an unchanged generation a declared path keeps all that its answers depend on. -/
theorem sameView_of_generation_eq (isParsed : host.cache.IsParsed)
    (permitted : host.Permits operation) (declared : path ∈ host.cache.paths)
    (same : (host.perform operation).generation = host.generation) :
    SameView path host.cache (host.perform operation).cache ∧
      path ∈ (host.perform operation).cache.paths := by
  have known := Cache.entryOf?_isSome_iff.mpr declared
  obtain ⟨entry, found⟩ := Option.isSome_iff_exists.mp known
  rw [← Cache.entryOf?_isSome_iff]
  by_cases lookup : IsLookup operation
  · obtain ⟨settings, kept⟩ := lookup_settings permitted lookup
    refine ⟨⟨settings.registry, settings.strict, fun parsed _ => ?_⟩, ?_⟩
    · rw [settings.globals]
      exact .refl _ _
    · rw [kept path]
      exact known
  · have quiet : ¬host.Disturbs path operation := fun disturbs =>
      absurd same (Nat.ne_of_gt (generation_lt_of_disturbs isParsed permitted found disturbs))
    obtain ⟨view, keeps⟩ := perform_quiet isParsed permitted lookup quiet
    obtain ⟨new, isNew, _⟩ := keeps entry found
    refine ⟨view, ?_⟩
    rw [isNew]
    rfl

theorem ask_of_undeclared (absent : host.cache.entryOf? path = none) :
    host.ask path message = .error (.pathNotCached path) := by
  unfold ask Cache.get
  rw [absent]

/-- Under an unchanged generation a lookup that fails goes on failing. -/
theorem ask_error_perform {registry : Registry} {options : Options} {before : List Operation}
    (reached : Run (start registry options) before host) (permitted : host.Permits operation)
    (same : (host.perform operation).generation = host.generation) {error : QueryError}
    (failed : host.ask path message = .error error) :
    (host.perform operation).ask path message = .error error := by
  have onward := reached.append (.cons permitted (.nil _))
  have isParsed := (WellFormed.run reached (.start registry options)).cache.isParsed
  cases found : host.cache.entryOf? path with
  | none =>
      have absent : (host.perform operation).cache.entryOf? path = none := by
        cases after : (host.perform operation).cache.entryOf? path with
        | none => rfl
        | some entry =>
            have rises := generation_lt_of_declared isParsed permitted found after
            exact absurd same (Nat.ne_of_gt rises)
      rw [ask_of_undeclared found] at failed
      rw [ask_of_undeclared absent]
      exact failed
  | some entry =>
      have declared : path ∈ host.cache.paths := by
        rw [← Cache.entryOf?_isSome_iff, found]
        rfl
      obtain ⟨view, kept⟩ := sameView_of_generation_eq isParsed permitted declared same
      obtain ⟨strict, parsed, parses, fails⟩ := (reached.ask_error_iff declared).mp failed
      refine (onward.ask_error_iff kept).mpr ⟨view.strict.trans strict, parsed, parses, ?_⟩
      rw [← failure?_eq_some_iff] at fails ⊢
      rw [← fails]
      exact (Path.failure?_resolveStrict_eq_of_agree (view.globals parsed parses)).symm

/-! ## Runs -/

theorem Run.generation_le {first last : Host} {operations : List Operation}
    (run : Run first operations last) (wellFormed : first.WellFormed) :
    first.generation ≤ last.generation := by
  induction run with
  | nil host => exact Nat.le_refl _
  | cons permitted later ih =>
      exact Nat.le_trans (generation_le_perform wellFormed.cache.isParsed permitted)
        (ih (wellFormed.perform permitted))

/-- If a whole run leaves the generation as it was, its first operation does. -/
theorem Run.generation_eq_of_cons {last : Host} {rest : List Operation}
    (later : Run (host.perform operation) rest last) (wellFormed : host.WellFormed)
    (permitted : host.Permits operation) (same : last.generation = host.generation) :
    (host.perform operation).generation = host.generation ∧
      last.generation = (host.perform operation).generation := by
  have here := generation_le_perform wellFormed.cache.isParsed permitted
  have onward := later.generation_le (wellFormed.perform permitted)
  omega

theorem Run.remembers_of_generation_eq {first last : Host} {operations : List Operation}
    (run : Run first operations last) (wellFormed : first.WellFormed) (living : message ∈ last.live)
    (arrived : message.identity < first.nextMessage) (same : last.generation = first.generation)
    {result? : Option SharedItems}
    (remembers : first.cache.Remembers path message.identity result?) :
    last.cache.Remembers path message.identity result? := by
  induction run with
  | nil host => exact remembers
  | @cons host last operation rest permitted later ih =>
      obtain ⟨here, onward⟩ := later.generation_eq_of_cons wellFormed permitted same
      have isParsed := wellFormed.cache.isParsed
      have declared := remembers
      obtain ⟨entry, _, found, _⟩ := declared
      have quiet : ¬host.Disturbs path operation := fun disturbs =>
        absurd here (Nat.ne_of_gt (generation_lt_of_disturbs isParsed permitted found disturbs))
      have stays := (Run.cons permitted later).live_of_live living arrived
      exact ih (wellFormed.perform permitted) living
        (Nat.lt_of_lt_of_le arrived (host.nextMessage_le_perform operation)) onward
        (remembers_perform isParsed permitted stays quiet remembers)

theorem Run.ask_error_of_generation_eq {registry : Registry} {options : Options}
    {before operations : List Operation} {first last : Host} (run : Run first operations last)
    (reached : Run (start registry options) before first)
    (same : last.generation = first.generation) {error : QueryError}
    (failed : first.ask path message = .error error) :
    last.ask path message = .error error := by
  induction run generalizing before with
  | nil host => exact failed
  | @cons host last operation rest permitted later ih =>
      have wellFormed := WellFormed.run reached (.start registry options)
      obtain ⟨here, onward⟩ := later.generation_eq_of_cons wellFormed permitted same
      exact ih (reached.append (.cons permitted (.nil _))) onward
        (ask_error_perform reached permitted here failed)

/-- The generation never falls, and a lookup that is repeated under an unchanged generation, for a
message that is still alive, gives the same instance, the same absence or the same error. -/
theorem ask_eq_of_generation_eq {registry : Registry} {options : Options}
    {before : List Operation} {first : Host} (reached : Run (start registry options) before first) :
    (∀ operations last, Run first operations last → first.generation ≤ last.generation) ∧
    ∀ path message between second, message ∈ first.live →
      Run (first.perform (.get path message)) between second → message ∈ second.live →
      second.generation = first.generation →
      second.ask path message = first.ask path message := by
  have wellFormed := WellFormed.run reached (.start registry options)
  refine ⟨fun _ _ run => run.generation_le wellFormed, ?_⟩
  intro path message between second asked run living same
  cases answer : first.ask path message with
  | ok result? =>
      have onward : second.generation = (first.perform (.get path message)).generation :=
        (run.generation_eq_of_cons wellFormed asked same).2
      have remembers := run.remembers_of_generation_eq (wellFormed.perform asked) living
        (wellFormed.arrived message asked) onward (Cache.remembers_of_get answer)
      unfold ask
      rw [Cache.get_of_remembers remembers]
  | error error =>
      have whole : Run first (.get path message :: between) second := .cons asked run
      exact whole.ask_error_of_generation_eq reached same answer

theorem ask_eq_of_generation_eq_plainHost :
    ∃ between second, Run (plainHost.perform (.get "/a[$n]" ⟨0, plainEvent⟩)) between second ∧
      between.length = 2 ∧
      second.ask "/a[$n]" ⟨0, plainEvent⟩ = plainHost.ask "/a[$n]" ⟨0, plainEvent⟩ := by
  have run : Run (plainHost.perform (.get "/a[$n]" ⟨0, plainEvent⟩)) [.setGlobal "m" .null, .prune]
      (((plainHost.perform (.get "/a[$n]" ⟨0, plainEvent⟩)).perform (.setGlobal "m" .null)).perform
        .prune) :=
    .cons trivial (.cons trivial (.nil _))
  refine ⟨_, _, run, rfl, ?_⟩
  exact (ask_eq_of_generation_eq run_plainHost).2 _ _ _ _ List.mem_cons_self run
    List.mem_cons_self (by decide +kernel)

end Host

end MessageQuery
