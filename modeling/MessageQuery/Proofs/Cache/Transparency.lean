import MessageQuery.Proofs.Cache.Coherence

/-!
# Transparency of the cache

Coherence holds in every state that a run reaches: an operation that is no lookup leaves an entry
blank, or keeps it with the settings that its answers depend on. So no history of a host shows in
its answers, except for which of several alike values a variable had when a path was resolved.
-/

namespace MessageQuery

namespace Host

variable {host : Host} {operation : Operation}

/-- A slot that was there before the operation is the slot of no message that arrives with it. -/
theorem live_of_slot (wellFormed : host.WellFormed) (permitted : host.Permits operation)
    {path : String} {entry : Entry} (found : host.cache.entryOf? path = some entry) {slot : Slot}
    (member : slot ∈ entry.memo) {message : Message}
    (living : message ∈ (host.perform operation).live)
    (same : message.identity = slot.message) : message ∈ host.live := by
  have arrived := (wellFormed.cache.slots path entry found slot member).1
  rw [← same] at arrived
  exact (Run.cons permitted (.nil _)).live_of_live living arrived

theorem coherent_lookup (wellFormed : host.WellFormed) (permitted : host.Permits operation)
    (lookup : IsLookup operation) (coherent : host.cache.Coherent host.live) :
    (host.perform operation).cache.Coherent host.live := by
  have both : (host.perform operation).cache.WellFormed host.nextMessage ∧
      (host.perform operation).cache.Coherent host.live := by
    refine (lookups_perform permitted lookup).preserves
      (fun cache => cache.WellFormed host.nextMessage ∧ cache.Coherent host.live) ?_ ?_
      ⟨wellFormed.cache, coherent⟩
    · rintro cache path message living ⟨formed, before⟩
      exact ⟨formed.get (wellFormed.arrived message living),
        before.get wellFormed.distinct living formed.isParsed⟩
    · rintro cache ⟨formed, before⟩
      exact ⟨formed.share [], before.share []⟩
  exact both.2

theorem coherent_plain (wellFormed : host.WellFormed) (permitted : host.Permits operation)
    (plain : ¬IsLookup operation) (coherent : host.cache.Coherent host.live) :
    (host.perform operation).cache.Coherent (host.perform operation).live := by
  intro path new found
  rcases isBlank_or_kept wellFormed.cache.isParsed permitted plain found with
    blank | ⟨view, old, isOld, same⟩
  · exact ⟨_, .ofBlank blank⟩
  · obtain ⟨snapshot, explains⟩ := coherent path old isOld
    have known : ∀ slot ∈ old.memo, ∀ message ∈ (host.perform operation).live,
        message.identity = slot.message → message ∈ host.live :=
      fun _ member _ => live_of_slot wellFormed permitted isOld member
    rcases same with rfl | rfl
    · exact ⟨snapshot, explains.moved view.globals view.registry view.strict rfl
        (fun _ member => member) known⟩
    · exact ⟨snapshot, explains.moved view.globals view.registry view.strict rfl
        (fun _ member => Entry.mem_memo_prune member) known⟩

theorem coherent_perform (wellFormed : host.WellFormed) (permitted : host.Permits operation)
    (coherent : host.cache.Coherent host.live) :
    (host.perform operation).cache.Coherent (host.perform operation).live := by
  by_cases lookup : IsLookup operation
  · have sameLive : (host.perform operation).live = host.live := by
      cases operation with
      | get path message => rfl
      | decode messages => rfl
      | _ => exact absurd lookup id
    rw [sameLive]
    exact coherent_lookup wellFormed permitted lookup coherent
  · exact coherent_plain wellFormed permitted lookup coherent

theorem Run.coherent {registry : Registry} {options : Options} {operations : List Operation}
    (run : Run (start registry options) operations host) : host.cache.Coherent host.live := by
  have both : host.WellFormed ∧ host.cache.Coherent host.live := by
    refine run.preserves (fun host => host.WellFormed ∧ host.cache.Coherent host.live)
      ?_ ⟨.start registry options, ?_⟩
    · rintro before operation permitted ⟨wellFormed, coherent⟩
      exact ⟨wellFormed.perform permitted, coherent_perform wellFormed permitted coherent⟩
    · intro path entry found
      cases found
  exact both.2

theorem Run.ask_error_iff {registry : Registry} {options : Options} {operations : List Operation}
    (run : Run (start registry options) operations host) {path : String}
    (declared : path ∈ host.cache.paths) {message : Message} {error : QueryError} :
    host.ask path message = .error error ↔
      host.cache.strict = true ∧ ∃ parsed, Path.parse? path = some parsed ∧
        parsed.resolveStrict host.cache.globals = .error error := by
  have isParsed := (WellFormed.run run (.start registry options)).cache.isParsed
  exact run.coherent.answer_error_iff isParsed declared error

/-- A result is what the path addresses under the current registry, with a snapshot of the globals
that agrees with the current one on the variables of the path. A lookup fails exactly if the
strict resolution under the current globals is asked for and fails, with the same error. -/
theorem ask_eq_direct {registry : Registry} {options : Options} {operations : List Operation}
    (run : Run (start registry options) operations host) {path : String}
    (declared : path ∈ host.cache.paths) {message : Message} (living : message ∈ host.live) :
    (∀ result?, host.ask path message = .ok result? →
      ∃ snapshot, AgreeOnReferences path snapshot host.cache.globals ∧
        result?.map SharedItems.items = host.cache.direct snapshot path message) ∧
    (∀ error, host.ask path message = .error error ↔
      host.cache.strict = true ∧ ∃ parsed, Path.parse? path = some parsed ∧
        parsed.resolveStrict host.cache.globals = .error error) := by
  constructor
  · intro result? answered
    have isParsed := (WellFormed.run run (.start registry options)).cache.isParsed
    exact run.coherent.answer_eq_direct isParsed living answered
  · intro error
    exact run.ask_error_iff declared

theorem ask_eq_direct_plainHost :
    ∃ shared snapshot, plainHost.ask "/a[$n]" ⟨0, plainEvent⟩ = .ok (some shared) ∧
      AgreeOnReferences "/a[$n]" snapshot plainHost.cache.globals ∧
      some shared.items = plainHost.cache.direct snapshot "/a[$n]" ⟨0, plainEvent⟩ := by
  have declared : "/a[$n]" ∈ plainHost.cache.paths := by decide +kernel
  obtain ⟨snapshot, agree, same⟩ :=
    (ask_eq_direct run_plainHost declared List.mem_cons_self).1 (some _) rfl
  exact ⟨_, snapshot, rfl, agree, same⟩

end Host

end MessageQuery
