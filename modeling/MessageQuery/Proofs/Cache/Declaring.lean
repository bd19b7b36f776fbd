import Mathlib.Data.List.Perm.Basic
import MessageQuery.Proofs.Cache.Declared
import MessageQuery.Proofs.Cache.Generation

/-!
# Declaring paths

A declaration replaces the set of declared paths. It builds the new entries one text at a time and
takes those that stay out of the old ones, of which the last one fills each gap. At the end what
nobody asked for is left over, in some order. This comes to the same as looking up every text once
in the old entries: the paths stand in the order in which they were first named, a path that stays
keeps what is known about it, a new one starts blank, and one that is left over is forgotten.
-/

namespace MessageQuery

/-! ## One text after the other -/

namespace Cache

/-- Takes out the entry of a text and puts the last entry into its place. -/
def swapRemove? (text : String) (entries : List Entry) : Option (Entry × List Entry) :=
  let index := entries.findIdx fun entry => entry.text == text
  match entries[index]?, entries.getLast? with
  | some entry, some last => some (entry, (entries.set index last).dropLast)
  | _, _ => none

/-- The old entries that are left, the new ones so far, how many of them are of new texts, and what
was reported about those. -/
structure Rebuild where
  previous : List Entry
  entries : List Entry
  added : Nat
  faults : List Event

def Rebuild.take (rebuild : Rebuild) (text : String) : Rebuild :=
  if rebuild.entries.any fun entry => entry.text == text then rebuild
  else
    match swapRemove? text rebuild.previous with
    | some (entry, rest) =>
        { rebuild with previous := rest, entries := rebuild.entries ++ [entry] }
    | none =>
        { rebuild with
          entries := rebuild.entries ++ [.ofText text]
          added := rebuild.added + 1
          faults := rebuild.faults ++ (Event.ofText? text).toList }

def rebuild (alive : Nat → Bool) (texts : List String) (cache : Cache) : Cache × List Event :=
  let last := texts.foldl Rebuild.take ⟨cache.entries, [], 0, []⟩
  let after := { cache with entries := last.entries.map (Entry.prune alive) }
  if last.added = 0 ∧ last.previous = [] then (after, last.faults)
  else
    (after.nextGeneration, last.faults ++ [.pathsChanged last.added last.previous.length])

variable {cache : Cache}

/-- A gap that the last one fills only changes the order of the rest. -/
theorem perm_set_dropLast {α : Type} {xs : List α} {i : Nat} (inside : i < xs.length) {last : α}
    (isLast : xs.getLast? = some last) : xs.Perm (xs[i] :: (xs.set i last).dropLast) := by
  obtain ⟨early, rfl⟩ := List.getLast?_eq_some_iff.mp isLast
  by_cases before : i < early.length
  · have gap : (early.set i last).Perm (last :: early.eraseIdx i) :=
      List.set_perm_cons_eraseIdx before last
    have whole : (early[i] :: early.eraseIdx i).Perm early := List.getElem_cons_eraseIdx_perm before
    rw [List.set_append_left _ _ before, List.dropLast_concat, List.getElem_append_left before]
    calc
      List.Perm (early ++ [last]) (last :: early) := List.perm_append_singleton _ _
      List.Perm _ (last :: early[i] :: early.eraseIdx i) := whole.symm.cons _
      List.Perm _ (early[i] :: last :: early.eraseIdx i) := .swap _ _ _
      List.Perm _ (early[i] :: early.set i last) := gap.symm.cons _
  · have here : i = early.length := by
      rw [List.length_append, List.length_singleton] at inside
      omega
    subst here
    rw [List.set_append_right _ _ (Nat.le_refl _), Nat.sub_self]
    simp

theorem swapRemove?_spec (text : String) (entries : List Entry) :
    (swapRemove? text entries = none ∧ ∀ entry ∈ entries, entry.text ≠ text) ∨
    ∃ entry rest, swapRemove? text entries = some (entry, rest) ∧ entry.text = text ∧
      entries.Perm (entry :: rest) := by
  by_cases known : ∃ entry ∈ entries, entry.text = text
  · right
    have inside : entries.findIdx (fun entry => entry.text == text) < entries.length := by
      simpa [List.findIdx_lt_length] using known
    obtain ⟨last, isLast⟩ : ∃ last, entries.getLast? = some last := by
      obtain ⟨entry, member, _⟩ := known
      exact ⟨_, List.getLast?_eq_some_getLast (List.ne_nil_of_mem member)⟩
    have isText := List.findIdx_getElem (w := inside)
    refine ⟨_, _, ?_, eq_of_beq isText, perm_set_dropLast inside isLast⟩
    simp only [swapRemove?, List.getElem?_eq_getElem inside, isLast]
  · left
    have unknown : ∀ entry ∈ entries, entry.text ≠ text :=
      fun entry member same => known ⟨entry, member, same⟩
    have outside : entries.length ≤ entries.findIdx (fun entry => entry.text == text) := by
      refine Nat.le_of_eq (List.findIdx_eq_length.mpr fun entry member => ?_).symm
      exact beq_false_of_ne (unknown entry member)
    refine ⟨?_, unknown⟩
    simp only [swapRemove?, List.getElem?_eq_none outside]

/-- The texts that are not declared yet, each once. -/
def newTexts (texts : List String) (cache : Cache) : List String :=
  texts.eraseDups.filter fun text => !cache.paths.contains text

/-- The entries of the texts that are not among the given ones. -/
def leftOver (seen : List String) (cache : Cache) : List Entry :=
  cache.entries.filter fun entry => !seen.contains entry.text

/-- What a rebuild has come to after the given texts. -/
structure Rebuild.Reaches (cache : Cache) (seen : List String) (rebuild : Rebuild) : Prop where
  previous : rebuild.previous.Perm (cache.leftOver seen)
  entries : rebuild.entries = seen.eraseDups.map cache.declare
  added : rebuild.added = (cache.newTexts seen).length
  faults : rebuild.faults = (cache.newTexts seen).filterMap Event.ofText?

theorem newTexts_concat_of_known {seen : List String} {text : String} (known : text ∈ seen) :
    cache.newTexts (seen ++ [text]) = cache.newTexts seen := by
  rw [newTexts, eraseDups_concat, if_pos known, newTexts]

theorem newTexts_concat_of_declared {seen : List String} {text : String}
    (declared : text ∈ cache.paths) : cache.newTexts (seen ++ [text]) = cache.newTexts seen := by
  rw [newTexts, eraseDups_concat, newTexts]
  split
  · rfl
  · rw [List.filter_append]
    simp [declared]

theorem newTexts_concat_of_new {seen : List String} {text : String} (unknown : text ∉ seen)
    (new : text ∉ cache.paths) :
    cache.newTexts (seen ++ [text]) = cache.newTexts seen ++ [text] := by
  rw [newTexts, eraseDups_concat, if_neg unknown, newTexts, List.filter_append]
  simp [new]

theorem declare_of_mem (distinct : cache.paths.Nodup) {entry : Entry}
    (member : entry ∈ cache.entries) : cache.declare entry.text = entry := by
  rw [declare, entryOf?_of_mem distinct member]
  rfl

theorem declare_of_not_mem {text : String} (new : text ∉ cache.paths) :
    cache.declare text = .ofText text := by
  have absent : cache.entryOf? text = none := by
    rw [← Option.not_isSome_iff_eq_none, entryOf?_isSome_iff]
    exact new
  rw [declare, absent]
  rfl

theorem leftOver_concat (seen : List String) (text : String) :
    cache.leftOver (seen ++ [text]) =
      (cache.leftOver seen).filter fun entry => entry.text != text := by
  unfold leftOver
  rw [List.filter_filter]
  apply List.filter_congr
  intro entry _
  by_cases same : entry.text = text <;> simp [same]

theorem leftOver_concat_of_known {seen : List String} {text : String} (known : text ∈ seen) :
    cache.leftOver (seen ++ [text]) = cache.leftOver seen := by
  rw [leftOver_concat, List.filter_eq_self]
  intro entry member
  have unseen : entry.text ∉ seen := by simpa using (List.mem_filter.mp member).2
  rw [bne_iff_ne]
  rintro rfl
  exact unseen known

namespace Rebuild.Reaches

variable {seen : List String} {rebuild : Rebuild} {text : String}

theorem again (reaches : rebuild.Reaches cache seen) (known : text ∈ seen) :
    rebuild.Reaches cache (seen ++ [text]) := by
  refine ⟨?_, ?_, ?_, ?_⟩
  · rw [leftOver_concat_of_known known]
    exact reaches.previous
  · rw [eraseDups_concat, if_pos known]
    exact reaches.entries
  · rw [newTexts_concat_of_known known]
    exact reaches.added
  · rw [newTexts_concat_of_known known]
    exact reaches.faults

theorem previous_concat (reaches : rebuild.Reaches cache seen) (text : String) :
    (rebuild.previous.filter fun entry => entry.text != text).Perm
      (cache.leftOver (seen ++ [text])) := by
  rw [leftOver_concat]
  exact reaches.previous.filter _

theorem entries_concat (reaches : rebuild.Reaches cache seen) (unknown : text ∉ seen) :
    rebuild.entries ++ [cache.declare text] = (seen ++ [text]).eraseDups.map cache.declare := by
  rw [eraseDups_concat, if_neg unknown, List.map_append, reaches.entries]
  rfl

/-- A text without an entry gets a blank one. -/
theorem addNew (reaches : rebuild.Reaches cache seen) (unknown : text ∉ seen)
    (absent : ∀ entry ∈ rebuild.previous, entry.text ≠ text) :
    { rebuild with
      entries := rebuild.entries ++ [.ofText text]
      added := rebuild.added + 1
      faults := rebuild.faults ++ (Event.ofText? text).toList : Rebuild }.Reaches cache
        (seen ++ [text]) := by
  have new : text ∉ cache.paths := by
    intro declared
    obtain ⟨entry, member, rfl⟩ := List.mem_map.mp declared
    refine absent entry (reaches.previous.mem_iff.mpr (List.mem_filter.mpr ⟨member, ?_⟩)) rfl
    simpa using unknown
  have all : (rebuild.previous.filter fun entry => entry.text != text) = rebuild.previous :=
    List.filter_eq_self.mpr fun entry member => bne_iff_ne.mpr (absent entry member)
  refine ⟨?_, ?_, ?_, ?_⟩
  · exact all ▸ reaches.previous_concat text
  · rw [← reaches.entries_concat unknown, declare_of_not_mem new]
  · rw [newTexts_concat_of_new unknown new, List.length_append, ← reaches.added]
    rfl
  · rw [newTexts_concat_of_new unknown new, reaches.faults, List.filterMap_append,
      List.filterMap_cons, List.filterMap_nil]
    cases Event.ofText? text <;> rfl

/-- An entry is carried over; no other one that is left has its text, since each path is declared
once. -/
theorem carryOver (distinct : cache.paths.Nodup) (reaches : rebuild.Reaches cache seen)
    {entry : Entry} {rest : List Entry} (unknown : entry.text ∉ seen)
    (parts : rebuild.previous.Perm (entry :: rest)) :
    { rebuild with
      previous := rest
      entries := rebuild.entries ++ [entry] : Rebuild }.Reaches cache (seen ++ [entry.text]) := by
  have member : entry ∈ cache.entries := by
    have inside := reaches.previous.mem_iff.mp (parts.mem_iff.mpr List.mem_cons_self)
    exact (List.mem_filter.mp inside).1
  have declared : entry.text ∈ cache.paths := List.mem_map_of_mem member
  have apart : ((entry :: rest).map Entry.text).Nodup := by
    have whole := ((parts.symm.trans reaches.previous).map Entry.text).nodup_iff
    exact whole.mpr (distinct.sublist (List.filter_sublist.map _))
  have others : ((entry :: rest).filter fun other => other.text != entry.text) = rest := by
    rw [List.filter_cons_of_neg (by simp), List.filter_eq_self]
    intro other isOther
    rw [bne_iff_ne]
    intro same
    exact (List.nodup_cons.mp apart).1 (same ▸ List.mem_map_of_mem isOther)
  refine ⟨?_, ?_, ?_, ?_⟩
  · exact others ▸ (parts.symm.filter _).trans (reaches.previous_concat entry.text)
  · rw [← reaches.entries_concat unknown, declare_of_mem distinct member]
  · rw [newTexts_concat_of_declared declared]
    exact reaches.added
  · rw [newTexts_concat_of_declared declared]
    exact reaches.faults

/-- A text that was seen before changes nothing. Another one takes its entry out of what is left, if
there is one, and gets a blank entry if not. -/
theorem take (distinct : cache.paths.Nodup) (reaches : rebuild.Reaches cache seen)
    (text : String) : (rebuild.take text).Reaches cache (seen ++ [text]) := by
  have stands : (rebuild.entries.any fun entry => entry.text == text) = true ↔ text ∈ seen := by
    rw [reaches.entries]
    simp [text_declare]
  unfold Rebuild.take
  by_cases known : text ∈ seen
  · rw [if_pos (stands.mpr known)]
    exact reaches.again known
  · rw [if_neg (mt stands.mp known)]
    rcases swapRemove?_spec text rebuild.previous with
      ⟨isNone, absent⟩ | ⟨entry, rest, isSome, rfl, parts⟩
    · rw [isNone]
      exact reaches.addNew known absent
    · rw [isSome]
      exact reaches.carryOver distinct known parts

end Rebuild.Reaches

theorem reaches_foldl (distinct : cache.paths.Nodup) (texts : List String) :
    (texts.foldl Rebuild.take ⟨cache.entries, [], 0, []⟩).Reaches cache texts := by
  induction texts using List.reverseRecOn with
  | nil =>
      refine ⟨?_, rfl, rfl, rfl⟩
      have all : cache.leftOver [] = cache.entries := List.filter_eq_self.mpr fun _ _ => rfl
      rw [all]
      exact .refl _
  | append_singleton seen text ih =>
      rw [List.foldl_append]
      exact ih.take distinct text

/-- Rebuilding the entries text by text comes to the same as looking up every text. -/
theorem rebuild_eq_setPaths (distinct : cache.paths.Nodup) (alive : Nat → Bool)
    (texts : List String) : cache.rebuild alive texts = cache.setPaths alive texts := by
  have reaches := reaches_foldl distinct texts
  unfold rebuild
  generalize texts.foldl Rebuild.take ⟨cache.entries, [], 0, []⟩ = last at reaches
  have removed : (cache.paths.filter fun text => !texts.eraseDups.contains text).length =
      last.previous.length := by
    rw [reaches.previous.length_eq, leftOver, paths, List.filter_map, List.length_map]
    congr 1
    apply List.filter_congr
    intro entry _
    simp
  have unchanged : (last.added = 0 ∧ last.previous = []) ↔
      ((cache.newTexts texts).isEmpty &&
        (cache.paths.filter fun text => !texts.eraseDups.contains text).isEmpty) = true := by
    rw [Bool.and_eq_true_iff, List.isEmpty_iff_length_eq_zero, List.isEmpty_iff_length_eq_zero,
      reaches.added, removed, List.length_eq_zero_iff, List.length_eq_zero_iff]
  simp only [reaches.entries, unchanged, List.map_map]
  rw [reaches.faults, reaches.added, ← removed]
  rfl

end Cache

/-! ## Replacing the declared paths -/

/-- What a path that stays declared keeps: what its text reads as, the path it was resolved to, and
the slots of exactly the messages that are alive. -/
structure Entry.Carried (alive : Nat → Bool) (old new : Entry) : Prop where
  parsed : new.parsed? = old.parsed?
  resolved : new.resolved? = old.resolved?
  slots : ∀ message, alive message = true → new.lookup? message = old.lookup? message
  living : ∀ slot ∈ new.memo, alive slot.message = true

theorem Entry.carried_prune (alive : Nat → Bool) (entry : Entry) :
    entry.Carried alive (entry.prune alive) :=
  ⟨rfl, rfl, fun _ living => lookup?_prune living entry,
    fun _ member => (List.mem_filter.mp member).2⟩

namespace Host

variable {host : Host} {path : String} {texts : List String}

/-- The declared paths of a host have been replaced by the given texts. Whatever is done later, a
path that was dropped gives no list that had been numbered before. -/
structure Replaced (texts : List String) (first second : Host) : Prop where
  paths : FirstOccurrences texts second.cache.paths
  carried : ∀ path ∈ texts, path ∈ first.cache.paths →
    ∃ old new, first.cache.entryOf? path = some old ∧ second.cache.entryOf? path = some new ∧
      old.Carried first.alive new
  fresh : ∀ path ∈ texts, path ∉ first.cache.paths →
    ∃ new, second.cache.entryOf? path = some new ∧ new.IsBlank path ∧
      ∀ name, name ∈ new.variableNames ↔ References path name
  dropped : ∀ path ∉ texts, ∀ message,
    second.ask path message = .error (.pathNotCached path) ∧
    ∀ operations last shared, Run second operations last →
      last.ask path message = .ok (some shared) → first.cache.nextIdentity ≤ shared.identity
  same : (∀ path, path ∈ texts ↔ path ∈ first.cache.paths) → second.generation = first.generation
  changed : ¬(∀ path, path ∈ texts ↔ path ∈ first.cache.paths) →
    second.generation = first.generation + 1

theorem carried_setPaths (declared : path ∈ texts) (known : path ∈ host.cache.paths) :
    ∃ old new, host.cache.entryOf? path = some old ∧
      (host.perform (.setPaths texts)).cache.entryOf? path = some new ∧
      old.Carried host.alive new := by
  obtain ⟨old, isOld⟩ := Option.isSome_iff_exists.mp (Cache.entryOf?_isSome_iff.mpr known)
  have new := Cache.entryOf?_setPaths host.alive texts host.cache path
  rw [if_pos declared, Cache.declare, isOld] at new
  exact ⟨old, _, isOld, new, old.carried_prune host.alive⟩

theorem fresh_setPaths (declared : path ∈ texts) (unknown : path ∉ host.cache.paths) :
    ∃ new, (host.perform (.setPaths texts)).cache.entryOf? path = some new ∧ new.IsBlank path ∧
      ∀ name, name ∈ new.variableNames ↔ References path name := by
  have new := Cache.entryOf?_setPaths host.alive texts host.cache path
  rw [if_pos declared, Cache.declare_of_not_mem unknown] at new
  have blank := Entry.isBlank_prune_ofText host.alive path
  exact ⟨_, new, blank, fun name => Entry.mem_variableNames_iff blank.parsed⟩

theorem dropped_setPaths (wellFormed : host.WellFormed) (left : path ∉ texts) (message : Message) :
    (host.perform (.setPaths texts)).ask path message = .error (.pathNotCached path) ∧
    ∀ operations last shared, Run (host.perform (.setPaths texts)) operations last →
      last.ask path message = .ok (some shared) → host.cache.nextIdentity ≤ shared.identity := by
  have permitted : host.Permits (.setPaths texts) := trivial
  constructor
  · have absent := Cache.entryOf?_setPaths host.alive texts host.cache path
    rw [if_neg left] at absent
    exact ask_of_undeclared absent
  · intro operations last shared run answered
    by_contra earlier
    have retires := retires_of_disturbs wellFormed.cache.isParsed permitted left
      (Nat.lt_of_not_le earlier)
    exact (run.retires (wellFormed.perform permitted) retires).ne_of_get answered rfl

/-- Declaring paths replaces the set of declared paths, in every state that a run reaches:
rebuilding the entries text by text comes to `setPaths`, which replaces what was declared by the
texts. So a path that was dropped starts blank when it is declared again. -/
theorem setPaths_replaces {registry : Registry} {options : Options} {operations : List Operation}
    (reached : Run (start registry options) operations host) (texts : List String) :
    host.cache.rebuild host.alive texts = host.cache.setPaths host.alive texts ∧
    Replaced texts host (host.perform (.setPaths texts)) := by
  have wellFormed := WellFormed.run reached (.start registry options)
  refine ⟨Cache.rebuild_eq_setPaths reached.nodup_paths _ _, ?_⟩
  have paths : (host.perform (.setPaths texts)).cache.paths = texts.eraseDups :=
    Cache.paths_setPaths _ _ _
  exact {
    paths := paths ▸ firstOccurrences_eraseDups texts
    carried := fun _ => carried_setPaths
    fresh := fun _ => fresh_setPaths
    dropped := fun _ => dropped_setPaths wellFormed
    same := Cache.generation_setPaths_of_same
    changed := Cache.generation_setPaths_of_changed }

/-- The small host, whose path has been looked up. -/
def askedHost : Host :=
  plainHost.perform (.get "/a[$n]" ⟨0, plainEvent⟩)

theorem setPaths_replaces_askedHost :
    Replaced ["/b", "/a[$n]", "/b"] askedHost
      (askedHost.perform (.setPaths ["/b", "/a[$n]", "/b"])) ∧
    (askedHost.perform (.setPaths ["/b", "/a[$n]", "/b"])).cache.paths = ["/b", "/a[$n]"] := by
  have run : Run plainHost [.get "/a[$n]" ⟨0, plainEvent⟩] askedHost :=
    .cons List.mem_cons_self (.nil _)
  exact ⟨(setPaths_replaces (run_plainHost.append run) _).2, by decide⟩

end Host

end MessageQuery
