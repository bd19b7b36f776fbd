import Mathlib.Data.List.Induction
import Mathlib.Data.List.Nodup
import MessageQuery.Proofs.Cache.Steps

/-!
# Declared paths

Only a declaration changes which paths a cache has, and in which order: that of their first
occurrences. In every state that a run reaches each path is declared once, so every entry is the
entry of its text.
-/

namespace MessageQuery

/-! ## First occurrences -/

/-- The names of a list, each once, in the order of their first occurrences. -/
structure FirstOccurrences (texts names : List String) : Prop where
  same : ∀ name, name ∈ names ↔ name ∈ texts
  ordered : names.Pairwise fun a b => texts.idxOf a < texts.idxOf b

theorem FirstOccurrences.nodup {texts names : List String} (first : FirstOccurrences texts names) :
    names.Nodup :=
  first.ordered.imp fun {a b} before (same : a = b) =>
    Nat.ne_of_lt before (congrArg texts.idxOf same)

theorem eraseDups_concat (seen : List String) (text : String) :
    (seen ++ [text]).eraseDups =
      if text ∈ seen then seen.eraseDups else seen.eraseDups ++ [text] := by
  rw [List.eraseDups_append]
  by_cases known : text ∈ seen
  · simp [List.removeAll, known]
  · have last : [text].removeAll seen = [text] := by simp [List.removeAll, known]
    rw [last, if_neg known]
    rfl

theorem firstOccurrences_eraseDups (texts : List String) :
    FirstOccurrences texts texts.eraseDups := by
  refine ⟨fun _ => List.mem_eraseDups, ?_⟩
  induction texts using List.reverseRecOn with
  | nil => exact .nil
  | append_singleton seen text ih =>
      have later : seen.eraseDups.Pairwise fun a b =>
          (seen ++ [text]).idxOf a < (seen ++ [text]).idxOf b := by
        refine ih.imp_of_mem fun {a b} isA isB before => ?_
        rw [List.idxOf_append_of_mem (List.mem_eraseDups.mp isA),
          List.idxOf_append_of_mem (List.mem_eraseDups.mp isB)]
        exact before
      rw [eraseDups_concat]
      split
      · exact later
      · next unknown =>
          refine List.pairwise_append.mpr ⟨later, List.pairwise_singleton _ _, ?_⟩
          intro name isName last isLast
          have member := List.mem_eraseDups.mp isName
          rw [List.mem_singleton.mp isLast, List.idxOf_append_of_mem member,
            List.idxOf_append_of_notMem unknown]
          exact Nat.lt_of_lt_of_le (List.idxOf_lt_length_of_mem member) (Nat.le_add_right _ _)

/-! ## What keeps the declared paths -/

namespace Cache

variable {cache : Cache}

theorem texts_map (entries : List Entry) {change : Entry → Entry}
    (keepsText : ∀ entry, (change entry).text = entry.text) :
    (entries.map change).map Entry.text = entries.map Entry.text := by
  rw [List.map_map]
  exact List.map_congr_left fun entry _ => keepsText entry

theorem paths_putEntry (cache : Cache) (entry : Entry) :
    (cache.putEntry entry).paths = cache.paths :=
  texts_map cache.entries (text_replaced entry)

theorem paths_invalidateWhere (chosen : Entry → Bool) (cache : Cache) :
    (cache.invalidateWhere chosen).2.paths = cache.paths := by
  have kept := texts_map cache.entries (text_cleared chosen)
  unfold invalidateWhere
  dsimp only
  split <;> exact kept

theorem paths_invalidateAll (cache : Cache) : cache.invalidateAll.paths = cache.paths :=
  texts_map cache.entries fun _ => rfl

theorem paths_prune (alive : Nat → Bool) (cache : Cache) :
    (cache.prune alive).paths = cache.paths :=
  texts_map cache.entries fun _ => rfl

theorem paths_invalidate (text : String) (cache : Cache) :
    (cache.invalidate text).2.paths = cache.paths := by
  unfold invalidate
  split
  · exact paths_putEntry _ _
  · rfl

theorem paths_setRegistry (registry : Registry) (cache : Cache) :
    (cache.setRegistry registry).1.paths = cache.paths := by
  unfold setRegistry
  split
  · rfl
  · exact paths_invalidateAll _

theorem paths_setStrict (strict : Bool) (cache : Cache) :
    (cache.setStrict strict).paths = cache.paths := by
  unfold setStrict
  split
  · rfl
  · exact paths_invalidateAll _

theorem paths_get (alive : Nat → Bool) (path : String) (message : Message) (cache : Cache) :
    (cache.get alive path message).2.paths = cache.paths := by
  unfold get
  cases cache.entryOf? path with
  | none => rfl
  | some entry =>
      dsimp only
      split
      · rfl
      · split
        · rfl
        · next resolved? ready _ =>
            obtain ⟨next, shared?, shares, _⟩ :=
              cache.shareResult_spec (cache.evaluate resolved? message)
            rw [shares]
            exact paths_putEntry _ _

/-- An entry of a path that is declared once is found by its text. -/
theorem entryOf?_of_mem (distinct : cache.paths.Nodup) {entry : Entry}
    (member : entry ∈ cache.entries) : cache.entryOf? entry.text = some entry := by
  have declared : entry.text ∈ cache.paths := List.mem_map_of_mem member
  obtain ⟨found, isFound⟩ := Option.isSome_iff_exists.mp (entryOf?_isSome_iff.mpr declared)
  have same := List.inj_on_of_nodup_map distinct (mem_entries_of_entryOf? isFound) member
    (text_of_entryOf? isFound)
  rw [isFound, same]

end Cache

namespace Host

variable {host : Host} {operation : Operation}

/-- An operation that declares nothing keeps the declared paths. -/
theorem paths_perform (plain : ∀ texts, operation ≠ .setPaths texts) :
    (host.perform operation).cache.paths = host.cache.paths := by
  cases operation with
  | setPaths texts => exact absurd rfl (plain texts)
  | setRegistry registry => exact Cache.paths_setRegistry _ _
  | setGlobals shared globals => exact Cache.paths_invalidateWhere _ _
  | setGlobal name value => exact Cache.paths_invalidateWhere _ _
  | setStrict strict => exact Cache.paths_setStrict _ _
  | setOptions options => exact Cache.paths_setStrict _ _
  | invalidate text => exact Cache.paths_invalidate _ _
  | invalidateAll => exact Cache.paths_invalidateAll _
  | invalidateByVariable name => exact Cache.paths_invalidateWhere _ _
  | prune => exact Cache.paths_prune _ _
  | get path message => exact Cache.paths_get _ _ _ _
  | decode messages =>
      apply Cache.decode_preserves fun after => after.paths = host.cache.paths
      · intro after path topic chosen message _ _ same
        exact (Cache.paths_get _ _ _ after).trans same
      · intro after same
        exact same
      · rfl
  | receive event => rfl
  | drop message => rfl

theorem nodup_paths_perform (operation : Operation) (distinct : host.cache.paths.Nodup) :
    (host.perform operation).cache.paths.Nodup := by
  by_cases declares : ∃ texts, operation = .setPaths texts
  · obtain ⟨texts, rfl⟩ := declares
    have declared : (host.perform (.setPaths texts)).cache.paths = texts.eraseDups :=
      Cache.paths_setPaths _ _ _
    rw [declared]
    exact (firstOccurrences_eraseDups texts).nodup
  · rw [paths_perform fun texts isSetPaths => declares ⟨texts, isSetPaths⟩]
    exact distinct

theorem Run.nodup_paths {registry : Registry} {options : Options} {operations : List Operation}
    (reached : Run (start registry options) operations host) : host.cache.paths.Nodup :=
  reached.preserves (fun host => host.cache.paths.Nodup)
    (fun _ operation _ => nodup_paths_perform operation) List.nodup_nil

end Host

end MessageQuery
