import FontCatalog.Proofs.CacheLookups

/-!
# One decode for each key

Threads that look up keys of one cache, each with a loader of its own, get one value for each key,
whatever the order of their steps. This module derives that guarantee from the invariant of
machines with lookups only. Nothing is assumed of values, so that equal values may be read as one
instance. A thread makes a single call; one that makes several calls in a row is covered as well, as
several threads of which each starts after the one before has returned.

A loader runs while its thread holds the lock of the slot, so what is claimed about the time after
a loader is a statement about all continuations of a schedule.
-/

namespace FontCatalog

variable {Key Value : Type}

/-- What a call that looks up a key replies when its slot holds a value. -/
def CacheCall.replyFor (value : Value) : CacheCall Key Value → CacheReply Value
  | .get _ => .found (some value)
  | .getOrLoad _ _ => .came (.held value)
  | _ => .done

/-- How a call ends that has taken a slot with a value, by the number of steps it has left. -/
inductive Serving (call : CacheCall Key Value) (slot : Nat) (value : Value) :
    Nat → Stage Value → Prop where
  | inSlot : Serving call slot value 2 (.inSlot slot)
  | leaving :
      Serving call slot value 1 (.leaving (.slot slot) (.returned (call.replyFor value)))
  | returned : Serving call slot value 0 (.outside (.returned (call.replyFor value)))

variable [DecidableEq Key]

namespace CacheMachine

variable {machine next : CacheMachine Key Value} {place other slot : Nat} {value : Value}
  {thread : CacheThread Key Value} {call : CacheCall Key Value} {key : Key}
  {stage : Stage Value}

/-! ## Threads that need no lock -/

theorem exists_step (here : machine.threads[place]? = some thread)
    (unhindered : thread.stage.wants? = none)
    (moves : (thread.advance machine.cache).isSome) :
    ∃ next, machine.step? place = some next := by
  rcases Option.isSome_iff_exists.mp moves with ⟨⟨cache, stage⟩, advanced⟩
  refine ⟨_, step?_eq_some_iff.mpr ⟨thread, cache, stage, here, ?_, advanced, rfl⟩⟩
  simp [canGo, unhindered]

omit [DecidableEq Key] in
theorem getElem?_threads_set_self {threads : List (CacheThread Key Value)}
    {moved : CacheThread Key Value} (here : threads[place]? = some thread) :
    (threads.set place moved)[place]? = some moved := by
  have inside : place < threads.length := (List.getElem?_eq_some_iff.mp here).1
  simp [inside]

theorem Orderly.own_step (orderly : machine.Orderly)
    (here : machine.threads[place]? = some ⟨call, stage⟩)
    (stepped : machine.step? place = some next) :
    ∃ key after, call.lookedUp? = some key ∧ Stands call key machine.cache stage ∧
      LookupStep call key machine.cache stage next.cache after ∧
      next.threads[place]? = some ⟨call, after⟩ := by
  rcases orderly.step_cases stepped with
    ⟨moved, key, before, after, wasHere, looksUp, stands, step, threads_eq⟩
  cases here.symm.trans wasHere
  refine ⟨key, after, looksUp, stands, step, ?_⟩
  rw [threads_eq]
  exact getElem?_threads_set_self here

theorem Orderly.other_step (orderly : machine.Orderly) (different : other ≠ place)
    (there : machine.threads[other]? = some thread)
    (stepped : machine.step? place = some next) : next.threads[other]? = some thread := by
  rcases orderly.step_cases stepped with ⟨_, _, _, _, _, _, _, _, threads_eq⟩
  rw [threads_eq, List.getElem?_set_ne (Ne.symm different)]
  exact there

theorem Orderly.grows_step (orderly : machine.Orderly)
    (stepped : machine.step? place = some next) : machine.cache.Grows next.cache := by
  rcases orderly.step_cases stepped with ⟨_, _, _, _, _, _, stands, step, _⟩
  exact step.grows stands

theorem Orderly.grows_run (orderly : machine.Orderly) (schedule : List Nat) :
    machine.cache.Grows (machine.run schedule).cache := by
  induction schedule generalizing machine with
  | nil => exact Cache.Grows.refl _
  | cons mover rest ih =>
      rw [run_cons]
      cases stepped : machine.step? mover with
      | none => exact ih orderly
      | some next => exact (orderly.grows_step stepped).trans (ih (orderly.step stepped))

/-- Threads move on and do not change their calls. -/
theorem Orderly.progress_le_run (orderly : machine.Orderly)
    (here : machine.threads[place]? = some ⟨call, stage⟩) (schedule : List Nat) :
    ∃ later, (machine.run schedule).threads[place]? = some ⟨call, later⟩ ∧
      stage.progress ≤ later.progress := by
  induction schedule generalizing machine stage with
  | nil => exact ⟨stage, here, Nat.le_refl _⟩
  | cons mover rest ih =>
      rw [run_cons]
      cases stepped : machine.step? mover with
      | none => exact ih orderly here
      | some next =>
          by_cases same : place = mover
          · subst same
            rcases orderly.own_step here stepped with ⟨key, after, -, -, step, isAfter⟩
            rcases ih (orderly.step stepped) isAfter with ⟨later, isLater, further⟩
            exact ⟨later, isLater, by have := step.progress_lt; omega⟩
          · exact ih (orderly.step stepped) (orderly.other_step same here stepped)

/-! ## A slot that is full when it is taken -/

theorem Serving.step (orderly : machine.Orderly)
    (here : machine.threads[place]? = some ⟨call, stage⟩) {left : Nat}
    (serving : Serving call slot value (left + 1) stage)
    (held : machine.cache.content slot = some value) :
    ∃ next after, machine.step? place = some next ∧
      next.threads[place]? = some ⟨call, after⟩ ∧ Serving call slot value left after := by
  have moves : ∃ next, machine.step? place = some next := by
    cases serving with
    | inSlot => exact exists_step here rfl rfl
    | leaving => exact exists_step here rfl rfl
  rcases moves with ⟨next, stepped⟩
  rcases orderly.own_step here stepped with ⟨key, after, looksUp, stands, step, isAfter⟩
  refine ⟨next, after, stepped, isAfter, ?_⟩
  generalize next.cache = cache at step
  cases serving with
  | inSlot =>
      cases step with
      | answer isGet =>
          rw [held, isGet]
          exact .leaving
      | reuse isLoad isHeld =>
          cases held.symm.trans isHeld
          rw [isLoad]
          exact .leaving
      | startLoading isLoad empty =>
          rw [held] at empty
          cases empty
  | leaving =>
      cases step with
      | giveReply => exact .returned

/-- A call that has taken a full slot takes its last steps, whatever other threads do between
them. -/
theorem Orderly.serving_run (orderly : machine.Orderly)
    (here : machine.threads[place]? = some ⟨call, stage⟩) {left : Nat}
    (serving : Serving call slot value left stage)
    (held : machine.cache.content slot = some value) (schedule : List Nat) :
    ∃ later, (machine.run schedule).threads[place]? = some ⟨call, later⟩ ∧
      Serving call slot value (left - schedule.count place) later := by
  induction schedule generalizing machine stage left with
  | nil => exact ⟨stage, here, serving⟩
  | cons mover rest ih =>
      rw [run_cons]
      by_cases same : mover = place
      · subst same
        rw [List.count_cons_self]
        cases left with
        | zero =>
            have stuck : machine.step? mover = none := by
              cases serving
              simp [step?, here, canGo, Stage.wants?, CacheThread.advance]
            rw [stuck, Nat.zero_sub]
            simpa using ih orderly here serving held
        | succ left =>
            rcases Serving.step orderly here serving held with
              ⟨next, after, stepped, isAfter, servingAfter⟩
            rw [stepped, Nat.add_sub_add_right]
            have grows := orderly.grows_step stepped
            exact ih (orderly.step stepped) isAfter servingAfter (grows.content_eq held)
      · rw [List.count_cons_of_ne same]
        cases stepped : machine.step? mover with
        | none => exact ih orderly here serving held
        | some next =>
            have isHere := orderly.other_step (Ne.symm same) here stepped
            have grows := orderly.grows_step stepped
            exact ih (orderly.step stepped) isHere serving (grows.content_eq held)

/-! ## A slot that is left empty -/

/-- A slot holds nothing and no loader runs on it. -/
structure Vacant (machine : CacheMachine Key Value) (slot : Nat) : Prop where
  empty : machine.cache.content slot = none
  idle : ∀ {place : Nat} {call : CacheCall Key Value},
    machine.threads[place]? ≠ some ⟨call, .loading slot⟩

/-- In the course of a schedule, no thread but the one at a place takes a slot to load at need. -/
def NextInLine (machine : CacheMachine Key Value) (slot place : Nat) (schedule : List Nat) :
    Prop :=
  ∀ before, before <+: schedule → ∀ worker key attempt,
    (machine.run before).threads[worker]? = some ⟨.getOrLoad key attempt, .inSlot slot⟩ →
      worker = place

theorem NextInLine.tail {mover : Nat} {rest : List Nat}
    (line : machine.NextInLine slot place (mover :: rest)) :
    ((machine.step? mover).getD machine).NextInLine slot place rest := by
  intro before isBefore worker key attempt there
  exact line (mover :: before) (List.prefix_cons_inj mover |>.mpr isBefore) worker key attempt
    there

/-- A slot stays vacant until a thread that has taken it starts its loader. -/
theorem Orderly.vacant_or_loading_of_step (orderly : machine.Orderly)
    (vacant : machine.Vacant slot) (stepped : machine.step? place = some next) :
    next.Vacant slot ∨
      ∃ key attempt, machine.threads[place]? = some ⟨.getOrLoad key attempt, .inSlot slot⟩ ∧
        next.threads[place]? = some ⟨.getOrLoad key attempt, .loading slot⟩ := by
  rcases orderly.step_cases stepped with
    ⟨call, key, stage, after, here, -, stands, step, threads_eq⟩
  have isAfter : next.threads[place]? = some ⟨call, after⟩ := by
    rw [threads_eq]
    exact getElem?_threads_set_self here
  have kept : next.cache.content slot = machine.cache.content slot := by
    apply step.content_eq
    · rintro rfl
      exact vacant.idle here
    · rintro other rfl
      cases stands with
      | loading _ found _ => exact found
  by_cases starts : after = .loading slot
  · right
    subst starts
    generalize next.cache = cache at step
    cases step with
    | @startLoading _ attempt isLoad empty =>
        subst isLoad
        exact ⟨key, attempt, here, isAfter⟩
  · left
    refine ⟨kept.trans vacant.empty, ?_⟩
    intro other otherCall there
    rw [threads_eq] at there
    rcases getElem?_threads_set there with ⟨-, moved⟩ | ⟨-, wasThere⟩
    · cases moved
      exact starts rfl
    · exact vacant.idle wasThere

theorem Orderly.exists_loading (orderly : machine.Orderly) {attempt : Attempt Value}
    (here : machine.threads[place]? = some ⟨.getOrLoad key attempt, .inSlot slot⟩)
    (empty : machine.cache.content slot = none) :
    ∃ next, machine.step? place = some next ∧
      next.threads[place]? = some ⟨.getOrLoad key attempt, .loading slot⟩ := by
  rcases exists_step here rfl rfl with ⟨next, stepped⟩
  rcases orderly.own_step here stepped with ⟨_, after, -, -, step, isAfter⟩
  refine ⟨next, stepped, ?_⟩
  generalize next.cache = cache at step
  cases step with
  | answer isGet => cases isGet
  | reuse isLoad held =>
      rw [empty] at held
      cases held
  | startLoading isLoad isEmpty => exact isAfter

/-- The next thread to take a vacant slot finds it empty. -/
theorem Orderly.content_eq_none_run (orderly : machine.Orderly) (vacant : machine.Vacant slot)
    {schedule : List Nat} (line : machine.NextInLine slot place schedule)
    (arrived : (machine.run schedule).threads[place]? = some ⟨call, .inSlot slot⟩) :
    (machine.run schedule).cache.content slot = none := by
  induction schedule generalizing machine with
  | nil => exact vacant.empty
  | cons mover rest ih =>
      have shorter := line.tail
      rw [run_cons] at arrived ⊢
      cases stepped : machine.step? mover with
      | none =>
          rw [stepped] at shorter arrived
          exact ih orderly vacant shorter arrived
      | some next =>
          rw [stepped] at shorter arrived
          have orderlyNext := orderly.step stepped
          rcases orderly.vacant_or_loading_of_step vacant stepped with
            stillVacant | ⟨key, attempt, inSlot, loading⟩
          · exact ih orderlyNext stillVacant shorter arrived
          · -- The thread at the place cannot have started its loader and be about to take the slot.
            have isPlace := line [] (List.nil_prefix) mover key attempt inSlot
            subst isPlace
            rcases orderlyNext.progress_le_run loading rest with ⟨later, isLater, further⟩
            cases arrived.symm.trans isLater
            simp [Stage.progress] at further

/-! ## One decode -/

/-- What a cache promises to threads that look up its keys: in a state of the machine, and about
all that may follow it. -/
structure DecodesOnce (machine : CacheMachine Key Value) : Prop where
  /-- Of the loaders that were run for a key, one at most came up with a value. -/
  once : ∀ {left right : Nat} {leftThread rightThread : CacheThread Key Value} {key : Key},
    machine.threads[left]? = some leftThread → machine.threads[right]? = some rightThread →
      leftThread.call.lookedUp? = some key → rightThread.call.lookedUp? = some key →
      leftThread.loaded?.isSome → rightThread.loaded?.isSome → left = right
  /-- Loaders for one key do not run at the same time. -/
  apart : ∀ {left right : Nat} {leftCall rightCall : CacheCall Key Value} {key : Key}
      {leftSlot rightSlot : Nat},
    machine.threads[left]? = some ⟨leftCall, .loading leftSlot⟩ →
      machine.threads[right]? = some ⟨rightCall, .loading rightSlot⟩ →
      leftCall.lookedUp? = some key → rightCall.lookedUp? = some key → left = right
  /-- All values that were returned for a key are one. -/
  same : ∀ {left right : Nat} {leftThread rightThread : CacheThread Key Value} {key : Key}
      {leftReply rightReply : CacheReply Value} {leftValue rightValue : Value},
    machine.threads[left]? = some leftThread → machine.threads[right]? = some rightThread →
      leftThread.call.lookedUp? = some key → rightThread.call.lookedUp? = some key →
      leftThread.stage.settled? = some leftReply → rightThread.stage.settled? = some rightReply →
      leftReply.value? = some leftValue → rightReply.value? = some rightValue →
      leftValue = rightValue
  /-- A loader that comes up with a value leaves it in the slot, for good. -/
  stored : ∀ {place slot : Nat} {key : Key} {value : Value},
    machine.threads[place]? = some ⟨.getOrLoad key (.loaded value), .loading slot⟩ →
      ∃ next, machine.step? place = some next ∧
        next.threads[place]? = some ⟨.getOrLoad key (.loaded value),
          .leaving (.slot slot) (.returned (.came (.ran (.loaded value))))⟩ ∧
        ∀ rest, (next.run rest).cache.content slot = some value
  /-- A call that has taken a slot with a value returns this value in two steps of its own, and
  its loader does not run. -/
  reused : ∀ {place slot : Nat} {call : CacheCall Key Value} {value : Value},
    machine.threads[place]? = some ⟨call, .inSlot slot⟩ →
      machine.cache.content slot = some value → ∀ rest, ∃ later,
        (machine.run rest).threads[place]? = some ⟨call, later⟩ ∧
          Serving call slot value (2 - rest.count place) later
  /-- A loader that comes up with nothing leaves the slot empty, and the next call that takes the
  slot to load at need runs its own loader. -/
  handedOver : ∀ {place slot : Nat} {key : Key} {attempt : Attempt Value},
    machine.threads[place]? = some ⟨.getOrLoad key attempt, .loading slot⟩ →
      attempt.value? = none →
      ∃ next, machine.step? place = some next ∧ next.cache.content slot = none ∧
        next.threads[place]? = some ⟨.getOrLoad key attempt,
          .leaving (.slot slot) (.returned (.came (.ran attempt)))⟩ ∧
        ∀ {rest other otherKey otherAttempt}, next.NextInLine slot other rest →
          (next.run rest).threads[other]? =
              some ⟨.getOrLoad otherKey otherAttempt, .inSlot slot⟩ →
            ∃ last, (next.run rest).step? other = some last ∧
              last.threads[other]? = some ⟨.getOrLoad otherKey otherAttempt, .loading slot⟩

theorem Orderly.exists_finish (orderly : machine.Orderly) {attempt : Attempt Value}
    (loading : machine.threads[place]? = some ⟨.getOrLoad key attempt, .loading slot⟩) :
    ∃ next, machine.step? place = some next ∧
      next.threads[place]? = some ⟨.getOrLoad key attempt,
        .leaving (.slot slot) (.returned (.came (.ran attempt)))⟩ ∧
      next.cache = ((attempt.value?.map (machine.cache.fill slot)).getD machine.cache) := by
  rcases exists_step loading rfl rfl with ⟨next, stepped⟩
  rcases orderly.own_step loading stepped with ⟨sameKey, after, -, -, step, isAfter⟩
  refine ⟨next, stepped, ?_⟩
  generalize next.cache = cache at step
  cases step with
  | store isLoad =>
      cases isLoad
      exact ⟨isAfter, rfl⟩
  | giveUp isLoad nothing =>
      cases isLoad
      rw [nothing]
      exact ⟨isAfter, rfl⟩

theorem Orderly.vacant_of_leaving (orderly : machine.Orderly) {waypoint : Waypoint Value}
    (leaving : machine.threads[place]? = some ⟨call, .leaving (.slot slot) waypoint⟩)
    (empty : machine.cache.content slot = none) : machine.Vacant slot := by
  refine ⟨empty, ?_⟩
  intro other otherCall there
  have same := orderly.exclusive there leaving rfl rfl
  subst same
  cases there.symm.trans leaving

theorem Orderly.apart (orderly : machine.Orderly) {left right leftSlot rightSlot : Nat}
    {leftCall rightCall : CacheCall Key Value}
    (isLeft : machine.threads[left]? = some ⟨leftCall, .loading leftSlot⟩)
    (isRight : machine.threads[right]? = some ⟨rightCall, .loading rightSlot⟩)
    (leftKey : leftCall.lookedUp? = some key) (rightKey : rightCall.lookedUp? = some key) :
    left = right := by
  rcases orderly.stands isLeft with ⟨_, leftLooksUp, leftStands⟩
  rcases orderly.stands isRight with ⟨_, rightLooksUp, rightStands⟩
  cases leftKey.symm.trans leftLooksUp
  cases rightKey.symm.trans rightLooksUp
  -- Both threads have found the slot of the key, and hold its lock.
  cases leftStands with
  | loading _ leftFound _ =>
      cases rightStands with
      | loading _ rightFound _ =>
          cases leftFound.symm.trans rightFound
          exact orderly.exclusive isLeft isRight rfl rfl

theorem Orderly.get?_of_settled? (orderly : machine.Orderly) {reply : CacheReply Value}
    (here : machine.threads[place]? = some thread) (looksUp : thread.call.lookedUp? = some key)
    (settled : thread.stage.settled? = some reply) (isValue : reply.value? = some value) :
    machine.cache.get? key = some value := by
  rcases orderly.stands here with ⟨_, sameKey, stands⟩
  cases looksUp.symm.trans sameKey
  exact stands.get?_of_settled? settled isValue

theorem Orderly.decodesOnce (orderly : machine.Orderly) : machine.DecodesOnce where
  once := orderly.once
  apart := orderly.apart
  same := by
    intro left right leftThread rightThread key leftReply rightReply leftValue rightValue isLeft
      isRight leftKey rightKey leftSettled rightSettled isLeftValue isRightValue
    have leftHeld := orderly.get?_of_settled? isLeft leftKey leftSettled isLeftValue
    have rightHeld := orderly.get?_of_settled? isRight rightKey rightSettled isRightValue
    exact Option.some.inj (leftHeld.symm.trans rightHeld)
  stored := by
    intro place slot key value loading
    rcases orderly.exists_finish loading with ⟨next, stepped, isAfter, isFilled⟩
    refine ⟨next, stepped, isAfter, ?_⟩
    intro rest
    rcases orderly.stands loading with ⟨_, looksUp, stands⟩
    have held : next.cache.content slot = some value := by
      cases stands with
      | loading _ found _ =>
          rw [isFilled]
          simp [Attempt.value?, Cache.content_fill value slot (Cache.slot?_lt found)]
    exact ((orderly.step stepped).grows_run rest).content_eq held
  reused := by
    intro place slot call value here held rest
    exact orderly.serving_run here .inSlot held rest
  handedOver := by
    intro place slot key attempt loading nothing
    rcases orderly.exists_finish loading with ⟨next, stepped, isAfter, isFilled⟩
    have orderlyNext := orderly.step stepped
    have empty : next.cache.content slot = none := by
      rw [isFilled, nothing]
      rcases orderly.stands loading with ⟨_, -, stands⟩
      cases stands with
      | loading _ _ empty => exact empty
    refine ⟨next, stepped, empty, isAfter, ?_⟩
    intro rest other otherKey otherAttempt line arrived
    have vacant := orderlyNext.vacant_of_leaving isAfter empty
    exact (orderlyNext.run rest).exists_loading arrived
      (orderlyNext.content_eq_none_run vacant line arrived)

/-- Threads that look up keys of one cache get one value for each key, from one loader, whatever
the order of their steps and whatever becomes of the other loaders. -/
theorem decodesOnce_run (cache : Cache Key Value) (calls : List (CacheCall Key Value))
    (lookups : ∀ call ∈ calls, call.lookedUp?.isSome) (schedule : List Nat) :
    ((start cache calls).run schedule).DecodesOnce :=
  ((orderly_start cache calls lookups).run schedule).decodesOnce

/-! ## A race

Four threads want the same key. The first three find its slot before any of them takes it; then
one loader fails, the next one panics, and the third one loads the value that the last thread
finds. -/

/-- The calls of the four threads. -/
def race : List (CacheCall String Nat) :=
  [.getOrLoad "SourceHan" .failed, .getOrLoad "SourceHan" .panicked,
    .getOrLoad "SourceHan" (.loaded 1), .getOrLoad "SourceHan" (.loaded 2)]

/-- The order in which the four threads take their steps. -/
def raceSchedule : List Nat :=
  [0, 0, 1, 0, 1, 1, 1, 2, 2, 2, 0, 1, 0, 1, 0, 3, 0, 1, 3, 1, 2, 3, 1, 1, 2, 2, 3, 2, 2, 3, 3, 3]

theorem decodesOnce_race :
    (∀ call ∈ race, call.lookedUp?.isSome) ∧
      ((start .empty race).run raceSchedule).replies =
        [some (.came (.ran .failed)), some (.came (.ran .panicked)),
          some (.came (.ran (.loaded 1))), some (.came (.held 1))] ∧
      ((start .empty race).run raceSchedule).DecodesOnce := by
  have lookups : ∀ call ∈ race, call.lookedUp?.isSome := by decide
  exact ⟨lookups, by decide +kernel, decodesOnce_run .empty race lookups raceSchedule⟩

end CacheMachine

end FontCatalog
