import FontCatalog.Cache.Lemmas
import FontCatalog.Proofs.CacheLocks

/-!
# Interleaved lookups

Calls that look up a key and neither put nor clear only add to a cache: slots stay attached to
their keys, and a slot that holds a value keeps it. `LookupStep` lists what a step of such a call
can do, and `Stands` where such a call may stand, given what the cache holds. That every thread of
a machine stands so, together with mutual exclusion and the uniqueness of a successful loader, is
the invariant `Orderly` of all runs from a start with lookups only.
-/

namespace FontCatalog

variable {Key Value : Type}

/-- The key that a call looks up, if that is all it does. -/
def CacheCall.lookedUp? : CacheCall Key Value → Option Key
  | .get key => some key
  | .getOrLoad key _ => some key
  | _ => none

/-- The value that a reply hands out. -/
def CacheReply.value? : CacheReply Value → Option Value
  | .found value? => value?
  | .came outcome => outcome.value?
  | _ => none

namespace Stage

/-- The reply that a call has returned or is about to return. -/
def settled? : Stage Value → Option (CacheReply Value)
  | outside (.returned reply) => some reply
  | leaving _ (.returned reply) => some reply
  | _ => none

/-- How far a call that looks up a key has come. -/
def progress : Stage Value → Nat
  | outside .called => 0
  | inIndex => 1
  | leaving _ (.atSlot _) => 2
  | outside (.atSlot _) => 3
  | inSlot _ => 4
  | loading _ => 5
  | leaving _ _ => 6
  | _ => 7

end Stage

/-- The value that the loader of a thread has come up with. -/
def CacheThread.loaded? (thread : CacheThread Key Value) : Option Value :=
  match thread.stage.settled? with
  | some (.came (.ran (.loaded value))) => some value
  | _ => none

variable [DecidableEq Key]

namespace Cache

/-! ## Growing caches -/

/-- Slots stay attached to their keys, and values stay in their slots. -/
structure Grows (before after : Cache Key Value) : Prop where
  slot?_eq : ∀ {key slot}, before.slot? key = some slot → after.slot? key = some slot
  content_eq : ∀ {slot value}, before.content slot = some value →
    after.content slot = some value

variable {before after : Cache Key Value} {key : Key} {slot : Nat} {value : Value}

theorem Grows.refl (cache : Cache Key Value) : cache.Grows cache :=
  ⟨id, id⟩

theorem Grows.trans {middle : Cache Key Value} (first : before.Grows middle)
    (second : middle.Grows after) : before.Grows after :=
  ⟨fun found => second.slot?_eq (first.slot?_eq found),
    fun held => second.content_eq (first.content_eq held)⟩

theorem get?_of_slot? (found : before.slot? key = some slot) :
    before.get? key = before.content slot := by
  simp [get?, found]

theorem Grows.get?_eq (grows : before.Grows after) (held : before.get? key = some value) :
    after.get? key = some value := by
  rcases Option.bind_eq_some_iff.mp held with ⟨slot, found, inSlot⟩
  rw [get?_of_slot? (grows.slot?_eq found)]
  exact grows.content_eq inSlot

theorem slot?_slotFor_of_found (found : before.slot? key = some slot) (other : Key) :
    (before.slotFor other).1.slot? key = some slot := by
  cases present : before.slot? other with
  | some place =>
      rw [slotFor_of_found present]
      exact found
  | none =>
      rw [slotFor_of_absent present, slot?_attach, if_neg]
      · exact found
      · rintro rfl
        rw [present] at found
        cases found

@[simp]
theorem content_slotFor_eq (cache : Cache Key Value) (key : Key) (slot : Nat) :
    (cache.slotFor key).1.content slot = cache.content slot := by
  cases present : cache.slot? key with
  | some place => rw [slotFor_of_found present]
  | none => rw [slotFor_of_absent present, content_attach]

theorem grows_slotFor (cache : Cache Key Value) (key : Key) :
    cache.Grows (cache.slotFor key).1 where
  slot?_eq := by
    intro other slot found
    exact slot?_slotFor_of_found found key
  content_eq := by
    intro slot value held
    rw [content_slotFor_eq]
    exact held

theorem grows_fill (found : before.slot? key = some slot) (empty : before.content slot = none)
    (value : Value) : before.Grows (before.fill slot value) where
  slot?_eq := id
  content_eq := by
    intro other held isHeld
    rw [content_fill value other (slot?_lt found), if_neg]
    · exact isHeld
    · rintro rfl
      rw [empty] at isHeld
      cases isHeld

end Cache

/-! ## Steps of a lookup -/

/-- What a step of a call that looks up a key can do: the stage before it, and the cache and the
stage after it. -/
inductive LookupStep (call : CacheCall Key Value) (key : Key) (cache : Cache Key Value) :
    Stage Value → Cache Key Value → Stage Value → Prop where
  | takeIndex : LookupStep call key cache (.outside .called) cache .inIndex
  | findSlot {after : Cache Key Value} {slot : Nat} (grows : cache.Grows after)
      (content_eq : ∀ other, after.content other = cache.content other)
      (found : after.slot? key = some slot) :
      LookupStep call key cache .inIndex after (.leaving .index (.atSlot slot))
  | missSlot (isGet : call = .get key) (absent : cache.slot? key = none) :
      LookupStep call key cache .inIndex cache (.leaving .index (.returned (.found none)))
  | leaveIndex {slot : Nat} :
      LookupStep call key cache (.leaving .index (.atSlot slot)) cache (.outside (.atSlot slot))
  | giveReply {lock : CacheLock} {reply : CacheReply Value} :
      LookupStep call key cache (.leaving lock (.returned reply)) cache
        (.outside (.returned reply))
  | takeSlot {slot : Nat} :
      LookupStep call key cache (.outside (.atSlot slot)) cache (.inSlot slot)
  | answer {slot : Nat} (isGet : call = .get key) :
      LookupStep call key cache (.inSlot slot) cache
        (.leaving (.slot slot) (.returned (.found (cache.content slot))))
  | reuse {slot : Nat} {attempt : Attempt Value} {value : Value}
      (isLoad : call = .getOrLoad key attempt) (held : cache.content slot = some value) :
      LookupStep call key cache (.inSlot slot) cache
        (.leaving (.slot slot) (.returned (.came (.held value))))
  | startLoading {slot : Nat} {attempt : Attempt Value} (isLoad : call = .getOrLoad key attempt)
      (empty : cache.content slot = none) :
      LookupStep call key cache (.inSlot slot) cache (.loading slot)
  | store {slot : Nat} {value : Value} (isLoad : call = .getOrLoad key (.loaded value)) :
      LookupStep call key cache (.loading slot) (cache.fill slot value)
        (.leaving (.slot slot) (.returned (.came (.ran (.loaded value)))))
  | giveUp {slot : Nat} {attempt : Attempt Value} (isLoad : call = .getOrLoad key attempt)
      (nothing : attempt.value? = none) :
      LookupStep call key cache (.loading slot) cache
        (.leaving (.slot slot) (.returned (.came (.ran attempt))))

/-- Where a call that looks up a key may stand, given what the cache holds. -/
inductive Stands (call : CacheCall Key Value) (key : Key) (cache : Cache Key Value) :
    Stage Value → Prop where
  | called : Stands call key cache (.outside .called)
  | inIndex : Stands call key cache .inIndex
  | leavingIndex {slot : Nat} (found : cache.slot? key = some slot) :
      Stands call key cache (.leaving .index (.atSlot slot))
  | leavingEmpty : Stands call key cache (.leaving .index (.returned (.found none)))
  | atSlot {slot : Nat} (found : cache.slot? key = some slot) :
      Stands call key cache (.outside (.atSlot slot))
  | inSlot {slot : Nat} (found : cache.slot? key = some slot) :
      Stands call key cache (.inSlot slot)
  | loading {slot : Nat} {attempt : Attempt Value} (isLoad : call = .getOrLoad key attempt)
      (found : cache.slot? key = some slot) (empty : cache.content slot = none) :
      Stands call key cache (.loading slot)
  | leavingSlot {slot : Nat} {reply : CacheReply Value} (found : cache.slot? key = some slot)
      (held : ∀ value, reply.value? = some value → cache.get? key = some value) :
      Stands call key cache (.leaving (.slot slot) (.returned reply))
  | returned {reply : CacheReply Value}
      (held : ∀ value, reply.value? = some value → cache.get? key = some value) :
      Stands call key cache (.outside (.returned reply))

variable {call : CacheCall Key Value} {key : Key} {cache after : Cache Key Value}
  {stage next : Stage Value}

theorem lookupStep_inIndex (looksUp : call.lookedUp? = some key)
    (advanced : (CacheThread.mk call .inIndex).advance cache = some (after, next)) :
    LookupStep call key cache .inIndex after next := by
  cases call with
  | get other =>
      cases looksUp
      simp only [CacheThread.advance, CacheThread.searchIndex] at advanced
      split at advanced
      · rename_i slot found
        cases advanced
        exact .findSlot (Cache.Grows.refl cache) (fun _ => rfl) found
      · rename_i absent
        cases advanced
        exact .missSlot rfl absent
  | getOrLoad other attempt =>
      cases looksUp
      cases advanced
      exact .findSlot (Cache.grows_slotFor cache key) (Cache.content_slotFor_eq cache key)
        (Cache.slot?_slotFor cache key)
  | put other value => cases looksUp
  | clear => cases looksUp
  | count => cases looksUp

theorem lookupStep_inSlot {slot : Nat} (looksUp : call.lookedUp? = some key)
    (advanced : (CacheThread.mk call (.inSlot slot)).advance cache = some (after, next)) :
    LookupStep call key cache (.inSlot slot) after next := by
  cases call with
  | get other => cases looksUp; cases advanced; exact .answer rfl
  | getOrLoad other attempt =>
      cases looksUp
      simp only [CacheThread.advance, CacheThread.workInSlot] at advanced
      split at advanced
      · rename_i value held
        cases advanced
        exact .reuse rfl held
      · rename_i empty
        cases advanced
        exact .startLoading rfl empty
  | put other value => cases looksUp
  | clear => cases looksUp
  | count => cases looksUp

theorem lookupStep_loading {slot : Nat} {attempt : Attempt Value}
    (isLoad : call = .getOrLoad key attempt)
    (advanced : (CacheThread.mk call (.loading slot)).advance cache = some (after, next)) :
    LookupStep call key cache (.loading slot) after next := by
  subst isLoad
  cases attempt with
  | loaded value => cases advanced; exact .store rfl
  | failed => cases advanced; exact .giveUp rfl rfl
  | panicked => cases advanced; exact .giveUp rfl rfl

theorem lookupStep_of_advance (looksUp : call.lookedUp? = some key)
    (stands : Stands call key cache stage)
    (advanced : (CacheThread.mk call stage).advance cache = some (after, next)) :
    LookupStep call key cache stage after next := by
  cases stands with
  | called => cases advanced; exact .takeIndex
  | inIndex => exact lookupStep_inIndex looksUp advanced
  | leavingIndex found => cases advanced; exact .leaveIndex
  | leavingEmpty => cases advanced; exact .giveReply
  | atSlot found => cases advanced; exact .takeSlot
  | inSlot found => exact lookupStep_inSlot looksUp advanced
  | loading isLoad found empty => exact lookupStep_loading isLoad advanced
  | leavingSlot found held => cases advanced; exact .giveReply
  | returned held => cases advanced

namespace LookupStep

theorem progress_lt (step : LookupStep call key cache stage after next) :
    stage.progress < next.progress := by
  cases step <;> simp [Stage.progress]

/-- A step changes what a slot holds only at the end of a loader that runs there. -/
theorem content_eq (step : LookupStep call key cache stage after next) {slot : Nat}
    (notLoading : stage ≠ .loading slot) (found : ∀ other, stage = .loading other →
      cache.slot? key = some other) : after.content slot = cache.content slot := by
  cases step with
  | findSlot grows content_eq isFound => exact content_eq slot
  | @store other value isLoad =>
      rw [Cache.content_fill value slot (Cache.slot?_lt (found other rfl)), if_neg]
      rintro rfl
      exact notLoading rfl
  | _ => rfl

theorem grows (step : LookupStep call key cache stage after next)
    (stands : Stands call key cache stage) : cache.Grows after := by
  cases step with
  | findSlot grows content_eq found => exact grows
  | store isLoad =>
      cases stands with
      | loading _ found empty => exact Cache.grows_fill found empty _
  | _ => exact Cache.Grows.refl cache

theorem stands (step : LookupStep call key cache stage after next)
    (stands : Stands call key cache stage) : Stands call key after next := by
  cases step with
  | takeIndex => exact .inIndex
  | findSlot grows content_eq found => exact .leavingIndex found
  | missSlot isGet absent => exact .leavingEmpty
  | leaveIndex =>
      cases stands with
      | leavingIndex found => exact .atSlot found
  | giveReply =>
      cases stands with
      | leavingEmpty => exact .returned (by simp [CacheReply.value?])
      | leavingSlot found held => exact .returned held
  | takeSlot =>
      cases stands with
      | atSlot found => exact .inSlot found
  | answer isGet =>
      cases stands with
      | inSlot found =>
          refine .leavingSlot found ?_
          intro value isValue
          rw [Cache.get?_of_slot? found]
          exact isValue
  | reuse isLoad held =>
      cases stands with
      | inSlot found =>
          refine .leavingSlot found ?_
          intro value isValue
          rw [Cache.get?_of_slot? found, held]
          exact isValue
  | startLoading isLoad empty =>
      cases stands with
      | inSlot found => exact .loading isLoad found empty
  | @store slot value isLoad =>
      cases stands with
      | loading _ found empty =>
          refine .leavingSlot found ?_
          intro other isOther
          rw [Cache.get?_fill found, if_pos rfl]
          exact isOther
  | giveUp isLoad nothing =>
      cases stands with
      | loading _ found empty =>
          refine .leavingSlot found ?_
          intro value isValue
          simp [CacheReply.value?, Outcome.value?, nothing] at isValue

/-- A loader has come up with a value before the step, or it does so in the step. -/
theorem loaded? (step : LookupStep call key cache stage after next) {value : Value}
    (loaded : (CacheThread.mk call next).loaded? = some value) :
    (CacheThread.mk call stage).loaded? = some value ∨ ∃ slot, stage = .loading slot := by
  cases step with
  | giveReply => exact Or.inl loaded
  | @giveUp slot attempt isLoad nothing => exact Or.inr ⟨slot, rfl⟩
  | @store slot value isLoad => exact Or.inr ⟨slot, rfl⟩
  | _ => cases loaded

end LookupStep

/-- A growing cache leaves a call where it stands, as long as an empty slot stays empty while a
loader runs on it. -/
theorem Stands.mono (stands : Stands call key cache stage) (grows : cache.Grows after)
    (empty : ∀ slot, stage = .loading slot → after.content slot = none) :
    Stands call key after stage := by
  cases stands with
  | called => exact .called
  | inIndex => exact .inIndex
  | leavingIndex found => exact .leavingIndex (grows.slot?_eq found)
  | leavingEmpty => exact .leavingEmpty
  | atSlot found => exact .atSlot (grows.slot?_eq found)
  | inSlot found => exact .inSlot (grows.slot?_eq found)
  | loading isLoad found _ => exact .loading isLoad (grows.slot?_eq found) (empty _ rfl)
  | leavingSlot found held =>
      exact .leavingSlot (grows.slot?_eq found) fun value isValue =>
        grows.get?_eq (held value isValue)
  | returned held => exact .returned fun value isValue => grows.get?_eq (held value isValue)

theorem Stands.get?_of_settled? (stands : Stands call key cache stage) {reply : CacheReply Value}
    {value : Value} (settled : stage.settled? = some reply) (isValue : reply.value? = some value) :
    cache.get? key = some value := by
  cases stands with
  | leavingEmpty =>
      cases settled
      cases isValue
  | leavingSlot found held =>
      cases settled
      exact held value isValue
  | returned held =>
      cases settled
      exact held value isValue
  | _ => cases settled

theorem Stands.get?_of_loaded? (stands : Stands call key cache stage) {value : Value}
    (loaded : (CacheThread.mk call stage).loaded? = some value) :
    cache.get? key = some value := by
  simp only [CacheThread.loaded?] at loaded
  split at loaded
  · rename_i held settled
    cases loaded
    exact stands.get?_of_settled? settled rfl
  · cases loaded

namespace CacheMachine

/-! ## The invariant of a machine with lookups only -/

/-- Every thread looks up a key and stands where such a call may stand, no lock is held twice, and
the loaders of one key come up with a value at most once. -/
structure Orderly (machine : CacheMachine Key Value) : Prop where
  exclusive : machine.Exclusive
  stands : ∀ {place : Nat} {thread : CacheThread Key Value},
    machine.threads[place]? = some thread → ∃ key, thread.call.lookedUp? = some key ∧
      Stands thread.call key machine.cache thread.stage
  once : ∀ {left right : Nat} {leftThread rightThread : CacheThread Key Value} {key : Key},
    machine.threads[left]? = some leftThread → machine.threads[right]? = some rightThread →
      leftThread.call.lookedUp? = some key → rightThread.call.lookedUp? = some key →
      leftThread.loaded?.isSome → rightThread.loaded?.isSome → left = right

variable {machine : CacheMachine Key Value}

theorem orderly_start (cache : Cache Key Value) (calls : List (CacheCall Key Value))
    (lookups : ∀ call ∈ calls, call.lookedUp?.isSome) : (start cache calls).Orderly where
  exclusive := exclusive_start cache calls
  stands := by
    intro place thread isThread
    simp only [start, List.getElem?_map, Option.map_eq_some_iff] at isThread
    rcases isThread with ⟨call, isCall, rfl⟩
    rcases Option.isSome_iff_exists.mp (lookups call (List.mem_of_getElem? isCall)) with
      ⟨key, looksUp⟩
    exact ⟨key, looksUp, .called⟩
  once := by
    intro left right leftThread rightThread key isLeft _ _ _ leftLoaded
    simp only [start, List.getElem?_map, Option.map_eq_some_iff] at isLeft
    rcases isLeft with ⟨call, -, rfl⟩
    cases leftLoaded

theorem Orderly.step_cases {next : CacheMachine Key Value} {place : Nat}
    (orderly : machine.Orderly) (stepped : machine.step? place = some next) :
    ∃ call key stage after,
      machine.threads[place]? = some ⟨call, stage⟩ ∧ call.lookedUp? = some key ∧
        Stands call key machine.cache stage ∧
        LookupStep call key machine.cache stage next.cache after ∧
        next.threads = machine.threads.set place ⟨call, after⟩ := by
  rcases step?_eq_some_iff.mp stepped with
    ⟨⟨call, stage⟩, cache, after, here, -, advanced, rfl⟩
  rcases orderly.stands here with ⟨key, looksUp, stands⟩
  exact ⟨call, key, stage, after, here, looksUp, stands,
    lookupStep_of_advance looksUp stands advanced, rfl⟩

/-- While a loader runs on a slot, no step of another thread changes what the slot holds. -/
theorem Orderly.content_eq_of_loading {place other : Nat} {thread : CacheThread Key Value}
    {call : CacheCall Key Value} {key : Key} {stage after : Stage Value} {cache : Cache Key Value}
    {slot : Nat} (orderly : machine.Orderly)
    (here : machine.threads[place]? = some ⟨call, stage⟩)
    (stands : Stands call key machine.cache stage)
    (step : LookupStep call key machine.cache stage cache after)
    (there : machine.threads[other]? = some thread) (different : other ≠ place)
    (holds : thread.stage.holds? = some (.slot slot)) :
    cache.content slot = machine.cache.content slot := by
  apply step.content_eq
  · rintro rfl
    exact different (orderly.exclusive there here holds rfl)
  · rintro otherSlot rfl
    cases stands with
    | loading _ found _ => exact found

/-- While a loader runs for a key, no loader has come up with a value for it. -/
theorem Orderly.loaded?_eq_none_of_loading {place other slot : Nat}
    {thread : CacheThread Key Value} {call : CacheCall Key Value} {key : Key}
    (orderly : machine.Orderly) (here : machine.threads[place]? = some ⟨call, .loading slot⟩)
    (looksUp : call.lookedUp? = some key) (there : machine.threads[other]? = some thread)
    (sameKey : thread.call.lookedUp? = some key) : thread.loaded? = none := by
  cases loaded : thread.loaded? with
  | none => rfl
  | some value =>
      rcases orderly.stands here with ⟨_, isKey, stands⟩
      rcases orderly.stands there with ⟨_, isOtherKey, otherStands⟩
      cases looksUp.symm.trans isKey
      cases sameKey.symm.trans isOtherKey
      have inCache := otherStands.get?_of_loaded? loaded
      cases stands with
      | loading _ found empty =>
          rw [Cache.get?_of_slot? found, empty] at inCache
          cases inCache

theorem Orderly.step {next : CacheMachine Key Value} {place : Nat} (orderly : machine.Orderly)
    (stepped : machine.step? place = some next) : next.Orderly := by
  rcases orderly.step_cases stepped with
    ⟨call, key, stage, after, here, looksUp, stands, step, threads_eq⟩
  refine ⟨exclusive_step orderly.exclusive stepped, ?_, ?_⟩
  · intro other thread isThread
    rw [threads_eq] at isThread
    rcases getElem?_threads_set isThread with ⟨rfl, rfl⟩ | ⟨different, wasThread⟩
    · exact ⟨key, looksUp, step.stands stands⟩
    · rcases orderly.stands wasThread with ⟨otherKey, otherLooksUp, otherStands⟩
      refine ⟨otherKey, otherLooksUp, otherStands.mono (step.grows stands) ?_⟩
      intro slot isLoading
      have holds : thread.stage.holds? = some (.slot slot) := by rw [isLoading]; rfl
      have kept := orderly.content_eq_of_loading here stands step wasThread different holds
      rw [kept]
      rw [isLoading] at otherStands
      cases otherStands with
      | loading _ _ empty => exact empty
  · -- The thread that moved against any other: its loader cannot be a second one.
    have only {other : Nat} {thread : CacheThread Key Value} (different : other ≠ place)
        (wasThread : machine.threads[other]? = some thread)
        (sameKey : thread.call.lookedUp? = some key) (otherLoaded : thread.loaded?.isSome)
        (loaded : (CacheThread.mk call after).loaded?.isSome) : False := by
      rcases Option.isSome_iff_exists.mp loaded with ⟨value, isValue⟩
      rcases step.loaded? isValue with before | ⟨slot, isLoading⟩
      · exact different (orderly.once wasThread here sameKey looksUp otherLoaded
          (Option.isSome_iff_exists.mpr ⟨value, before⟩))
      · subst isLoading
        rw [orderly.loaded?_eq_none_of_loading here looksUp wasThread sameKey] at otherLoaded
        cases otherLoaded
    intro left right leftThread rightThread sharedKey isLeft isRight leftKey rightKey leftLoaded
      rightLoaded
    rw [threads_eq] at isLeft isRight
    rcases getElem?_threads_set isLeft with ⟨rfl, rfl⟩ | ⟨leftOther, wasLeft⟩
    · have keys_eq : key = sharedKey := Option.some.inj (looksUp.symm.trans leftKey)
      subst keys_eq
      rcases getElem?_threads_set isRight with ⟨rfl, rfl⟩ | ⟨rightOther, wasRight⟩
      · rfl
      · exact (only rightOther wasRight rightKey rightLoaded leftLoaded).elim
    · rcases getElem?_threads_set isRight with ⟨rfl, rfl⟩ | ⟨rightOther, wasRight⟩
      · have keys_eq : key = sharedKey := Option.some.inj (looksUp.symm.trans rightKey)
        subst keys_eq
        exact (only leftOther wasLeft leftKey leftLoaded rightLoaded).elim
      · exact orderly.once wasLeft wasRight leftKey rightKey leftLoaded rightLoaded

theorem Orderly.run (orderly : machine.Orderly) (schedule : List Nat) :
    (machine.run schedule).Orderly :=
  run_induction (fun now stepped => now.step stepped) orderly schedule

end CacheMachine

end FontCatalog
