import FontCatalog.Proofs.CacheTurns

/-!
# Replies accounted for

Threads that look up keys of one cache start from what it holds. A call that loads at need returns
what was there or what another thread has stored meanwhile, or else it runs its loader, which only
happens under a key that held nothing at the start. In return every value that the cache has come to
hold was loaded by one of the threads. `AccountsFor` says this of a machine in the middle of a run.
-/

namespace FontCatalog

variable {Key Value : Type} [DecidableEq Key]

/-- A lookup changes what keys hold only at the end of a loader that came up with a value. -/
theorem Stands.get?_eq_or_stored {call : CacheCall Key Value} {key : Key}
    {cache after : Cache Key Value} {stage next : Stage Value}
    (stands : Stands call key cache stage) (looksUp : call.lookedUp? = some key)
    (advanced : (CacheThread.mk call stage).advance cache = some (after, next)) :
    (∀ other, after.get? other = cache.get? other) ∨
      ∃ slot value, cache.slot? key = some slot ∧ call = .getOrLoad key (.loaded value) ∧
        after = cache.fill slot value ∧
        next = .leaving (.slot slot) (.returned (.came (.ran (.loaded value)))) := by
  cases lookupStep_of_advance looksUp stands advanced with
  | findSlot grows content_eq found =>
      left
      intro other
      cases call with
      | get sought =>
          simp only [CacheThread.advance, CacheThread.searchIndex] at advanced
          split at advanced
          · cases advanced
            rfl
          · cases advanced
      | getOrLoad sought attempt =>
          cases advanced
          exact Cache.get?_slotFor cache sought other
      | put other value => cases looksUp
      | clear => cases looksUp
      | count => cases looksUp
  | @store slot value isLoad =>
      right
      cases stands with
      | loading _ found empty => exact ⟨slot, value, found, isLoad, rfl, rfl⟩
  | _ => exact Or.inl fun _ => rfl

namespace CacheMachine

variable {machine next : CacheMachine Key Value} {initial : Cache Key Value} {place : Nat}

/-- What the threads have returned, and what the cache holds, comes from the cache that they found
and from their loaders. -/
structure AccountsFor (machine : CacheMachine Key Value) (initial : Cache Key Value) : Prop where
  grows : initial.Grows machine.cache
  loading : ∀ {place slot : Nat} {call : CacheCall Key Value} {key : Key},
    machine.threads[place]? = some ⟨call, .loading slot⟩ → call.lookedUp? = some key →
      initial.get? key = none
  replied : ∀ {place : Nat} {key : Key} {attempt : Attempt Value} {stage : Stage Value}
      {reply : CacheReply Value},
    machine.threads[place]? = some ⟨.getOrLoad key attempt, stage⟩ →
      stage.settled? = some reply →
      (∃ value, reply = .came (.held value)) ∨
        reply = .came (.ran attempt) ∧ initial.get? key = none
  source : ∀ {key : Key} {value : Value}, machine.cache.get? key = some value →
    initial.get? key = some value ∨
      ∃ (place : Nat) (stage : Stage Value),
        machine.threads[place]? = some ⟨.getOrLoad key (.loaded value), stage⟩ ∧
          stage.settled? = some (.came (.ran (.loaded value)))

theorem accountsFor_start (cache : Cache Key Value) (calls : List (CacheCall Key Value)) :
    (start cache calls).AccountsFor cache where
  grows := Cache.Grows.refl cache
  loading := by
    intro place slot call key isThread
    simp only [start, List.getElem?_map, Option.map_eq_some_iff] at isThread
    rcases isThread with ⟨started, -, isCalled⟩
    cases isCalled
  replied := by
    intro place key attempt stage reply isThread settled
    simp only [start, List.getElem?_map, Option.map_eq_some_iff] at isThread
    rcases isThread with ⟨started, -, isCalled⟩
    cases isCalled
    cases settled
  source := Or.inl

/-- What the thread that has moved replies is accounted for. -/
theorem AccountsFor.replied_step {key : Key} {attempt : Attempt Value}
    {stage after : Stage Value} {cache : Cache Key Value} {reply : CacheReply Value}
    (accounts : machine.AccountsFor initial)
    (here : machine.threads[place]? = some ⟨.getOrLoad key attempt, stage⟩)
    (step : LookupStep (.getOrLoad key attempt) key machine.cache stage cache after)
    (settled : after.settled? = some reply) :
    (∃ value, reply = .came (.held value)) ∨
      reply = .came (.ran attempt) ∧ initial.get? key = none := by
  cases step with
  | missSlot isGet absent => cases isGet
  | answer isGet => cases isGet
  | giveReply => exact accounts.replied here settled
  | @reuse slot _ value isLoad held =>
      cases settled
      exact Or.inl ⟨value, rfl⟩
  | store isLoad =>
      cases isLoad
      cases settled
      exact Or.inr ⟨rfl, accounts.loading here rfl⟩
  | giveUp isLoad nothing =>
      cases isLoad
      cases settled
      exact Or.inr ⟨rfl, accounts.loading here rfl⟩
  | _ => cases settled

/-- A loader is started for a key that held nothing from the start on. -/
theorem AccountsFor.loading_step {call : CacheCall Key Value} {key : Key} {stage : Stage Value}
    {cache : Cache Key Value} {slot : Nat} (accounts : machine.AccountsFor initial)
    (stands : Stands call key machine.cache stage)
    (step : LookupStep call key machine.cache stage cache (.loading slot)) :
    initial.get? key = none := by
  cases step with
  | startLoading isLoad empty =>
      cases stands with
      | inSlot found =>
          cases held : initial.get? key with
          | none => rfl
          | some value =>
              have stillHeld := accounts.grows.get?_eq held
              rw [Cache.get?_of_slot? found, empty] at stillHeld
              cases stillHeld

theorem AccountsFor.step (orderly : machine.Orderly) (accounts : machine.AccountsFor initial)
    (stepped : machine.step? place = some next) : next.AccountsFor initial := by
  have grows := orderly.grows_step stepped
  rcases step?_eq_some_iff.mp stepped with
    ⟨⟨call, stage⟩, cache, after, here, -, advanced, rfl⟩
  rcases orderly.stands here with ⟨key, looksUp, stands⟩
  have step := lookupStep_of_advance looksUp stands advanced
  refine ⟨accounts.grows.trans grows, ?_, ?_, ?_⟩
  · intro other slot otherCall otherKey there otherLooksUp
    rcases getElem?_threads_set there with ⟨-, moved⟩ | ⟨-, wasThere⟩
    · cases moved
      cases looksUp.symm.trans otherLooksUp
      exact accounts.loading_step stands step
    · exact accounts.loading wasThere otherLooksUp
  · intro other otherKey attempt otherStage reply there settled
    rcases getElem?_threads_set there with ⟨-, moved⟩ | ⟨-, wasThere⟩
    · cases moved
      cases looksUp
      exact accounts.replied_step here step settled
    · exact accounts.replied wasThere settled
  · -- A value that is new was stored by the thread that moved; one that is not has its source.
    have old {other : Key} {value : Value} (held : machine.cache.get? other = some value) :
        initial.get? other = some value ∨
          ∃ (worker : Nat) (workerStage : Stage Value),
            (machine.threads.set place ⟨call, after⟩)[worker]? =
                some ⟨.getOrLoad other (.loaded value), workerStage⟩ ∧
              workerStage.settled? = some (.came (.ran (.loaded value))) := by
      rcases accounts.source held with fromStart | ⟨worker, workerStage, there, settled⟩
      · exact Or.inl fromStart
      · right
        by_cases same : worker = place
        · subst same
          cases here.symm.trans there
          refine ⟨worker, after, getElem?_threads_set_self here, ?_⟩
          cases step <;> first | exact settled | cases settled
        · exact ⟨worker, workerStage, by rwa [List.getElem?_set_ne (Ne.symm same)], settled⟩
    intro other value held
    rcases stands.get?_eq_or_stored looksUp advanced with
      same | ⟨slot, stored, found, rfl, rfl, rfl⟩
    · exact old ((same other).symm.trans held)
    · rw [Cache.get?_fill found] at held
      split at held
      · rename_i isKey
        subst isKey
        cases held
        exact Or.inr ⟨place, _, getElem?_threads_set_self here, rfl⟩
      · exact old held

theorem AccountsFor.run (orderly : machine.Orderly) (accounts : machine.AccountsFor initial)
    (schedule : List Nat) : (machine.run schedule).AccountsFor initial :=
  (run_induction
    (motive := fun now => now.Orderly ∧ now.AccountsFor initial)
    (fun now stepped => ⟨now.1.step stepped, now.2.step now.1 stepped⟩) ⟨orderly, accounts⟩
    schedule).2

/-- How a call that loads at need has returned: with its own loader, if the key held nothing at the
start, or with what the key holds by now. -/
theorem AccountsFor.outcome_cases {key : Key} {attempt : Attempt Value}
    {thread : CacheThread Key Value} (orderly : machine.Orderly)
    (accounts : machine.AccountsFor initial) (finished : machine.Finished)
    (here : machine.threads[place]? = some thread) (isLoad : thread.call = .getOrLoad key attempt) :
    ∃ outcome, thread.stage.reply? = some (.came outcome) ∧
      (outcome = .ran attempt ∧ initial.get? key = none ∨
        ∃ value, outcome = .held value) ∧
      ∀ value, outcome.value? = some value → machine.cache.get? key = some value := by
  rcases thread with ⟨call, stage⟩
  cases isLoad
  rcases finished _ (List.mem_of_getElem? here) with ⟨reply, rfl⟩
  have looksUp : (CacheCall.getOrLoad key attempt).lookedUp? = some key := rfl
  have held {value : Value} (given : reply.value? = some value) :
      machine.cache.get? key = some value := orderly.get?_of_settled? here looksUp rfl given
  rcases accounts.replied here rfl with ⟨value, rfl⟩ | ⟨rfl, absent⟩
  · exact ⟨.held value, rfl, Or.inr ⟨value, rfl⟩, fun other given => held given⟩
  · exact ⟨.ran attempt, rfl, Or.inl ⟨rfl, absent⟩, fun other given => held given⟩

end CacheMachine

end FontCatalog
