import MessageQuery.Proofs.Cache.Declared
import MessageQuery.Proofs.Cache.Sharing

/-!
# What setting a variable leaves alone

Setting a variable compares every other variable with itself, and so does setting all variables to
a copy of what they are. Each is found unchanged, with one exception: NaN differs from itself. A
path is settled if the comparison of its variables with themselves finds no change. Setting a
variable that a settled path does not refer to leaves the path alone: its entry stays, every lookup
goes as it would have gone, and the instances that it has given are given again.
-/

namespace MessageQuery

namespace Globals

/-- Comparing the variable with a copy of itself finds no change. A value that is shared is compared
as one instance, so it may hold NaN but not be NaN. -/
def Repeats (shared : String → Bool) (globals : Globals) (name : String) : Prop :=
  ∀ value, globals.get? name = some value →
    if shared name then value ≠ .number (.float .nan) else value.equal value = true

variable {shared : String → Bool} {old new : Globals} {name : String}

theorem not_mem_changedNamesSharing_iff (kept : new.get? name = old.get? name) :
    name ∉ old.changedNamesSharing shared new ↔ old.Repeats shared name := by
  rw [mem_changedNamesSharing, Bool.not_eq_true, Repeats, differsSharing, kept]
  cases old.get? name with
  | none => simp
  | some value =>
      cases isShared : shared name with
      | false => simp
      | true => simp [Value.sameInstanceEqual_iff]

/-- Of the other variables only those that are NaN are found changed. -/
theorem mem_changedNames_insert_iff {globals : Globals} {other : String} {value : Value}
    (different : other ≠ name) :
    other ∈ globals.changedNamesSharing (fun other => other != name) (globals.insert name value) ↔
      globals.get? other = some (.number (.float .nan)) := by
  have kept : (globals.insert name value).get? other = globals.get? other := by
    rw [Dict.get?_insert, if_neg different]
  have isShared : (other != name) = true := bne_iff_ne.mpr different
  rw [← not_iff_not, not_mem_changedNamesSharing_iff kept, Repeats]
  simp only [isShared, if_true]
  constructor
  · intro repeats isNaN
    exact repeats _ isNaN rfl
  · intro noNaN found isFound isNaN
    rw [isNaN] at isFound
    exact noNaN isFound

end Globals

namespace Host

/-- Comparing the variables of a path with copies of themselves finds no change. -/
def Settled (shared : String → Bool) (path : String) (host : Host) : Prop :=
  ∀ name, References path name → host.cache.globals.Repeats shared name

end Host

/-- What is left of a path that a change leaves alone: its entry, the answers of its lookups, and
what it remembers, until something disturbs it. -/
structure Host.Untouched (path : String) (before after : Host) : Prop where
  entry : after.cache.entryOf? path = before.cache.entryOf? path
  answers : ∀ message, after.ask path message = before.ask path message
  instances : ∀ message result? between last, message ∈ before.live →
    before.cache.Remembers path message.identity result? → Host.Run after between last →
    message ∈ last.live → Host.Undisturbed path after between →
    last.ask path message = .ok result?

/-! ## Lookups after a change -/

theorem Entry.resolve_eq_of_same {entry : Entry} {first second : Globals}
    (same : ∀ name ∈ entry.variableNames, first.get? name = second.get? name) (strict : Bool) :
    entry.resolve first strict = entry.resolve second strict := by
  unfold Entry.resolve
  cases isParsed : entry.parsed? with
  | none => rfl
  | some parsed =>
      have same' : ∀ name ∈ parsed.variableNames, first.get? name = second.get? name := by
        intro name member
        exact same name (by rw [Entry.variableNames, isParsed]; exact member)
      cases entry.resolved? with
      | some resolved => rfl
      | none =>
          dsimp only
          rw [Path.resolve_eq_of_same same', Path.resolveStrict_eq_of_same same']

namespace Cache

/-- A lookup depends on the entry of its path, the values of the variables in it, the registry, the
treatment of bounds, and how far result lists have been numbered. -/
theorem get_eq_of_same {first second : Cache} {path : String}
    (entries : second.entryOf? path = first.entryOf? path)
    (registry : second.registry = first.registry) (strict : second.strict = first.strict)
    (identities : second.nextIdentity = first.nextIdentity)
    (globals : ∀ entry, first.entryOf? path = some entry → ∀ name ∈ entry.variableNames,
      second.globals.get? name = first.globals.get? name)
    (alive : Nat → Bool) (message : Message) :
    (second.get alive path message).1 = (first.get alive path message).1 := by
  unfold get
  rw [entries]
  cases found : first.entryOf? path with
  | none => rfl
  | some entry =>
      dsimp only
      cases entry.lookup? message.identity with
      | some slot => rfl
      | none =>
          dsimp only
          rw [strict, Entry.resolve_eq_of_same (globals entry found)]
          cases entry.resolve first.globals first.strict with
          | error error => rfl
          | ok resolved =>
              have items : second.evaluate resolved.1 message = first.evaluate resolved.1 message := by
                unfold evaluate
                rw [registry]
              dsimp only
              rw [items]
              cases first.evaluate resolved.1 message with
              | none => rfl
              | some items => simp only [shareResult, share, identities]

theorem invalidateWhere_of_spared {cache : Cache} {chosen : Entry → Bool}
    (spared : ∀ entry ∈ cache.entries, chosen entry = false) :
    cache.invalidateWhere chosen = (0, cache) := by
  have noneChosen : cache.entries.countP chosen = 0 := by
    rw [List.countP_eq_zero]
    intro entry member
    rw [spared entry member]
    exact Bool.false_ne_true
  have unchanged : (cache.entries.map fun entry => if chosen entry then entry.clear else entry) =
      cache.entries := by
    conv => rhs; rw [← List.map_id cache.entries]
    apply List.map_congr_left
    intro entry member
    rw [spared entry member]
    rfl
  simp only [invalidateWhere, noneChosen, unchanged, if_true]

/-- A snapshot in which nothing has changed that a declared path refers to is only stored. -/
theorem replaceGlobals_eq {cache : Cache} {changed : List String} (isParsed : cache.IsParsed)
    (distinct : cache.paths.Nodup)
    (quiet : ∀ path ∈ cache.paths, ∀ name, References path name → name ∉ changed)
    (globals : Globals) : (cache.replaceGlobals changed globals).1 = { cache with globals } := by
  have spared : ∀ entry ∈ ({ cache with globals } : Cache).entries,
      (entry.variableNames.any fun name => changed.contains name) = false := by
    intro entry member
    rw [List.any_eq_false]
    intro name read isChanged
    have isEntry := isParsed _ _ (entryOf?_of_mem distinct member)
    exact quiet entry.text (List.mem_map_of_mem member) name
      ((Entry.mem_variableNames_iff isEntry).mp read) (List.contains_iff_mem.mp isChanged)
  unfold replaceGlobals
  rw [invalidateWhere_of_spared spared]

theorem globals_replaceGlobals (cache : Cache) (changed : List String) (globals : Globals) :
    (cache.replaceGlobals changed globals).1.globals = globals := by
  simp only [replaceGlobals, invalidateWhere]
  split <;> rfl

end Cache

namespace Host

variable {host : Host} {path name : String} {value : Value}

/-- Setting a variable that a path does not refer to disturbs the path exactly if another variable
of it is NaN. -/
theorem disturbs_setGlobal_iff (foreign : ¬References path name) :
    host.Disturbs path (.setGlobal name value) ↔ ¬host.Settled (fun _ => true) path := by
  have differs {other : String} (refers : References path other) : other ≠ name := by
    rintro rfl
    exact foreign refers
  constructor
  · rintro ⟨other, changed, refers⟩ settled
    have isNaN := (Globals.mem_changedNames_insert_iff (differs refers)).mp changed
    exact settled other refers _ isNaN rfl
  · intro unsettled
    apply Classical.byContradiction
    intro quiet
    apply unsettled
    intro other refers found isFound isNaN
    rw [isNaN] at isFound
    exact quiet ⟨other, (Globals.mem_changedNames_insert_iff (differs refers)).mpr isFound, refers⟩

theorem untouched_setGlobal (wellFormed : host.WellFormed) (foreign : ¬References path name)
    (settled : host.Settled (fun _ => true) path) :
    Untouched path host (host.perform (.setGlobal name value)) := by
  have isParsed := wellFormed.cache.isParsed
  have quiet : ¬host.Disturbs path (.setGlobal name value) := by
    rw [disturbs_setGlobal_iff foreign]
    exact not_not_intro settled
  have clears := Clears.setGlobalsSharing isParsed
    (Globals.keeps_insert host.cache.globals name value)
  have entry := clears.spared path quiet
  have view := clears.view path quiet
  refine ⟨entry, ?_, ?_⟩
  · apply Cache.get_eq_of_same entry view.registry view.strict clears.identities
    intro found isFound other read
    have refers := (Entry.mem_variableNames_iff (isParsed path found isFound)).mp read
    have different : other ≠ name := by
      rintro rfl
      exact foreign refers
    have stored : (host.cache.setGlobalsSharing (fun other => other != name)
        (host.cache.globals.insert name value)).1.globals = host.cache.globals.insert name value :=
      Cache.globals_replaceGlobals _ _ _
    rw [stored, Dict.get?_insert, if_neg different]
  · intro message result? between last living remembers run stays undisturbed
    have arrived := wellFormed.arrived message living
    have permitted : host.Permits (.setGlobal name value) := trivial
    have kept := remembers_perform isParsed permitted living quiet remembers
    have later := run.remembers (wellFormed.perform permitted) stays arrived undisturbed kept
    unfold ask
    rw [Cache.get_of_remembers later]

/-- Setting a variable leaves every settled path alone that does not refer to it. It keeps the
generation if all declared paths are such paths. Setting all variables to a copy of what they are
changes nothing at all if all declared paths are settled. -/
theorem setGlobal_untouched {registry : Registry} {options : Options}
    {operations : List Operation} (reached : Run (start registry options) operations host) :
    (∀ name value path, ¬References path name → host.Settled (fun _ => true) path →
      Untouched path host (host.perform (.setGlobal name value))) ∧
    (∀ name value,
      (∀ path ∈ host.cache.paths, ¬References path name ∧ host.Settled (fun _ => true) path) →
      (host.perform (.setGlobal name value)).generation = host.generation) ∧
    ∀ shared, (∀ path ∈ host.cache.paths, host.Settled shared path) →
      host.perform (.setGlobals shared host.cache.globals) = host := by
  have wellFormed := WellFormed.run reached (.start registry options)
  have isParsed := wellFormed.cache.isParsed
  have distinct := reached.nodup_paths
  refine ⟨fun _ _ _ => untouched_setGlobal wellFormed, ?_, ?_⟩
  · intro name value foreign
    have quiet : ∀ path ∈ host.cache.paths, ∀ other, References path other →
        other ∉ host.cache.globals.changedNamesSharing (fun other => other != name)
          (host.cache.globals.insert name value) := by
      intro path declared other refers changed
      obtain ⟨unread, settled⟩ := foreign path declared
      exact (disturbs_setGlobal_iff unread).mp ⟨other, changed, refers⟩ settled
    have stored := Cache.replaceGlobals_eq isParsed distinct quiet
      (host.cache.globals.insert name value)
    have kept := congrArg Cache.generation stored
    exact kept
  · intro shared settled
    have quiet : ∀ path ∈ host.cache.paths, ∀ name, References path name →
        name ∉ host.cache.globals.changedNamesSharing shared host.cache.globals := by
      intro path declared name refers
      exact (Globals.not_mem_changedNamesSharing_iff rfl).mpr (settled path declared name refers)
    have stored := Cache.replaceGlobals_eq isParsed distinct quiet host.cache.globals
    exact congrArg host.withCache stored

/-- The small host with a number for the variable of its path. -/
def hostAt (n : Number) : Host :=
  plainHost.perform (.setGlobal "n" (.number n))

theorem run_hostAt (n : Number) :
    Run (start plainRegistry {})
      [.setPaths ["/a[$n]"], .receive plainEvent, .setGlobal "n" (.number n)] (hostAt n) :=
  run_plainHost.append (.cons trivial (.nil _))

theorem references_plain {name : String} : References "/a[$n]" name ↔ name = "n" := by
  have parses : Path.parse? "/a[$n]" =
      some ⟨"/a[$n]", "/a", [.index (.reference "n" 3)], none⟩ := rfl
  constructor
  · rintro ⟨parsed, isParsed, member⟩
    cases parses.symm.trans isParsed
    exact List.mem_singleton.mp member
  · rintro rfl
    exact ⟨_, parses, List.mem_singleton.mpr rfl⟩

theorem setGlobal_untouched_hostAt :
    Untouched "/a[$n]" (hostAt (.uint 0)) ((hostAt (.uint 0)).perform (.setGlobal "m" .null)) ∧
    ((hostAt (.uint 0)).perform (.setGlobal "m" .null)).generation =
      (hostAt (.uint 0)).generation ∧
    (hostAt (.uint 0)).perform
        (.setGlobals (fun _ => false) (.ofList [("n", .number (.uint 0))])) =
      hostAt (.uint 0) := by
  have foreign : ¬References "/a[$n]" "m" := by
    rw [references_plain]
    decide
  have settled (shared : String → Bool) : (hostAt (.uint 0)).Settled shared "/a[$n]" := by
    intro name refers value isValue
    rw [references_plain.mp refers] at isValue
    cases isValue
    split
    · intro isNaN
      cases isNaN
    · rfl
  have declared : ∀ path ∈ (hostAt (.uint 0)).cache.paths, path = "/a[$n]" := by
    intro path member
    exact List.mem_singleton.mp member
  obtain ⟨untouched, generation, copied⟩ := setGlobal_untouched (run_hostAt (.uint 0))
  refine ⟨untouched "m" .null "/a[$n]" foreign (settled _), generation "m" .null ?_, copied _ ?_⟩
  · intro path member
    rw [declared path member]
    exact ⟨foreign, settled _⟩
  · intro path member
    rw [declared path member]
    exact settled _

/-- If the variable of the path is NaN, setting another variable raises the generation, and the
path gives another instance. -/
theorem identity_ne_of_setGlobal_nan :
    (∃ operations, Run (start plainRegistry {}) operations (hostAt (.float .nan))) ∧
    ¬References "/a[$n]" "m" ∧
    ((hostAt (.float .nan)).perform (.setGlobal "m" .null)).generation ≠
      (hostAt (.float .nan)).generation ∧
    ∃ items later,
      (hostAt (.float .nan)).ask "/a[$n]" ⟨0, plainEvent⟩ = .ok (some items) ∧
      (((hostAt (.float .nan)).perform (.get "/a[$n]" ⟨0, plainEvent⟩)).perform
        (.setGlobal "m" .null)).ask "/a[$n]" ⟨0, plainEvent⟩ = .ok (some later) ∧
      later.identity ≠ items.identity := by
  refine ⟨⟨_, run_hostAt _⟩, ?_, by decide +kernel, _, _, rfl, rfl, Nat.one_ne_zero⟩
  rw [references_plain]
  decide

end Host

end MessageQuery
