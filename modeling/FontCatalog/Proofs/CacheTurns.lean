import FontCatalog.Proofs.SingleDecode
import Mathlib.Algebra.GroupWithZero.Nat

/-!
# Threads that take turns

Threads that look up keys of one cache cannot block each other for good: a thread that holds a lock
never waits for another one, so that either such a thread has a step or all locks are free. Every
step brings its thread forward, hence a schedule that gives a turn to every thread often enough ends
with all calls returned. What they returned is then accounted for by the cache that the threads
found and the loaders that ran.
-/

namespace FontCatalog

variable {Key Value : Type}

/-- How many steps a thread has left at most. -/
def CacheThread.remaining (thread : CacheThread Key Value) : Nat :=
  CacheMachine.longestCall - thread.stage.progress

namespace Stage

variable {stage : Stage Value}

theorem progress_le_longestCall (stage : Stage Value) :
    stage.progress ≤ CacheMachine.longestCall := by
  unfold progress CacheMachine.longestCall
  split <;> omega

end Stage

variable [DecidableEq Key]

namespace Stands

variable {call : CacheCall Key Value} {key : Key} {cache : Cache Key Value} {stage : Stage Value}

/-- A lookup has a step until it has returned. -/
theorem isSome_advance (stands : Stands call key cache stage)
    (unfinished : stage.progress < CacheMachine.longestCall) :
    ((CacheThread.mk call stage).advance cache).isSome := by
  cases stands with
  | returned held => exact absurd unfinished (Nat.lt_irrefl _)
  | _ => rfl

/-- Who holds a lock does not wait for another one. -/
theorem wants?_eq_none (stands : Stands call key cache stage) {lock : CacheLock}
    (holds : stage.holds? = some lock) : stage.wants? = none := by
  cases stands with
  | called => cases holds
  | atSlot found => cases holds
  | _ => rfl

theorem exists_reply (stands : Stands call key cache stage)
    (finished : stage.progress = CacheMachine.longestCall) :
    ∃ reply, stage = .outside (.returned reply) := by
  cases stands with
  | returned held => exact ⟨_, rfl⟩
  | _ => cases finished

end Stands

namespace CacheMachine

variable {machine next : CacheMachine Key Value} {place : Nat}

/-! ## Progress -/

/-- How many steps the threads have left at most. -/
def remaining (machine : CacheMachine Key Value) : Nat :=
  (machine.threads.map CacheThread.remaining).sum

omit [DecidableEq Key] in
theorem remaining_le (machine : CacheMachine Key Value) :
    machine.remaining ≤ longestCall * machine.threads.length := by
  unfold remaining
  induction machine.threads with
  | nil => exact Nat.zero_le _
  | cons thread rest ih =>
      have bound : thread.remaining ≤ longestCall := Nat.sub_le _ _
      rw [List.map_cons, List.sum_cons, List.length_cons, Nat.mul_succ]
      omega

omit [DecidableEq Key] in
theorem sum_set_lt {threads : List (CacheThread Key Value)} {before after : CacheThread Key Value}
    (here : threads[place]? = some before) (less : after.remaining < before.remaining) :
    ((threads.set place after).map CacheThread.remaining).sum <
      (threads.map CacheThread.remaining).sum := by
  induction threads generalizing place with
  | nil => cases here
  | cons thread rest ih =>
      cases place with
      | zero =>
          cases here
          simpa using less
      | succ place =>
          have rest_lt := ih here
          simp only [List.set_cons_succ, List.map_cons, List.sum_cons]
          omega

theorem Orderly.remaining_lt (orderly : machine.Orderly)
    (stepped : machine.step? place = some next) : next.remaining < machine.remaining := by
  rcases orderly.step_cases stepped with
    ⟨call, key, stage, after, here, -, -, step, threads_eq⟩
  unfold remaining
  rw [threads_eq]
  apply sum_set_lt here
  have further := step.progress_lt
  have bound := after.progress_le_longestCall
  simp only [CacheThread.remaining]
  omega

/-- While a call has not returned, some thread has a step: one that holds a lock, or else, all locks
being free, that of the call itself. -/
theorem Orderly.exists_moving (orderly : machine.Orderly) {thread : CacheThread Key Value}
    (here : machine.threads[place]? = some thread)
    (unfinished : thread.stage.progress < longestCall) :
    ∃ mover, mover < machine.threads.length ∧ ∃ next, machine.step? mover = some next := by
  by_cases locked : ∃ other lock, other ∈ machine.threads ∧ other.stage.holds? = some lock
  · rcases locked with ⟨other, lock, isThread, holds⟩
    rcases List.mem_iff_getElem?.mp isThread with ⟨mover, there⟩
    rcases orderly.stands there with ⟨key, -, stands⟩
    have moves : other.stage.progress < longestCall := by
      apply Nat.lt_of_le_of_ne other.stage.progress_le_longestCall
      intro finished
      rcases stands.exists_reply finished with ⟨reply, returned⟩
      rw [returned] at holds
      cases holds
    exact ⟨mover, (List.getElem?_eq_some_iff.mp there).1,
      exists_step there (stands.wants?_eq_none holds) (stands.isSome_advance moves)⟩
  · rcases orderly.stands here with ⟨key, -, stands⟩
    rcases Option.isSome_iff_exists.mp (stands.isSome_advance unfinished) with
      ⟨⟨cache, stage⟩, advanced⟩
    have free : machine.canGo thread = true := by
      unfold canGo
      split
      · rename_i lock wants
        simp only [isFree, List.all_eq_true, decide_eq_true_eq]
        intro other isThread holds
        exact locked ⟨other, lock, isThread, holds⟩
      · rfl
    exact ⟨place, (List.getElem?_eq_some_iff.mp here).1, _,
      step?_eq_some_iff.mpr ⟨thread, cache, stage, here, free, advanced, rfl⟩⟩

theorem Orderly.remaining_run_le (orderly : machine.Orderly) (schedule : List Nat) :
    (machine.run schedule).remaining ≤ machine.remaining := by
  induction schedule generalizing machine with
  | nil => exact Nat.le_refl _
  | cons mover rest ih =>
      rw [run_cons]
      cases stepped : machine.step? mover with
      | none => exact ih orderly
      | some next =>
          have lower := orderly.remaining_lt stepped
          exact Nat.le_trans (ih (orderly.step stepped)) (Nat.le_of_lt lower)

/-- In a schedule with a thread that has a step, some thread makes one. -/
theorem Orderly.remaining_run_lt (orderly : machine.Orderly) {schedule : List Nat}
    (scheduled : place ∈ schedule) (moves : machine.step? place = some next) :
    (machine.run schedule).remaining < machine.remaining := by
  induction schedule with
  | nil => cases scheduled
  | cons mover rest ih =>
      rw [run_cons]
      cases stepped : machine.step? mover with
      | none =>
          -- The machine has not changed when the turn comes to the thread that can move.
          rcases List.mem_cons.mp scheduled with rfl | later
          · rw [stepped] at moves
            cases moves
          · exact ih later
      | some now =>
          exact Nat.lt_of_le_of_lt ((orderly.step stepped).remaining_run_le rest)
            (orderly.remaining_lt stepped)

theorem run_append (machine : CacheMachine Key Value) (first second : List Nat) :
    machine.run (first ++ second) = (machine.run first).run second :=
  List.foldl_append

theorem Orderly.calls_run (orderly : machine.Orderly) (schedule : List Nat) :
    (machine.run schedule).threads.map (·.call) = machine.threads.map (·.call) := by
  induction schedule generalizing machine with
  | nil => rfl
  | cons mover rest ih =>
      rw [run_cons]
      cases stepped : machine.step? mover with
      | none => exact ih orderly
      | some next =>
          rcases orderly.step_cases stepped with ⟨call, _, stage, after, here, -, -, -, threads_eq⟩
          rw [Option.getD_some, ih (orderly.step stepped), threads_eq, List.map_set]
          apply List.ext_getElem?
          intro other
          rw [List.getElem?_set]
          split
          · rename_i same
            subst same
            have inside := (List.getElem?_eq_some_iff.mp here).1
            rw [List.getElem?_map, here]
            simp [inside]
          · rfl

theorem Orderly.length_run (orderly : machine.Orderly) (schedule : List Nat) :
    (machine.run schedule).threads.length = machine.threads.length := by
  have calls := congrArg List.length (orderly.calls_run schedule)
  simpa using calls

/-- All calls have returned. -/
def Finished (machine : CacheMachine Key Value) : Prop :=
  ∀ thread ∈ machine.threads, ∃ reply, thread.stage = .outside (.returned reply)

theorem Orderly.finished_iff (orderly : machine.Orderly) :
    machine.Finished ↔ machine.remaining = 0 := by
  have sum_eq : machine.remaining = 0 ↔ ∀ thread ∈ machine.threads, thread.remaining = 0 := by
    simp [remaining, List.sum_eq_zero_iff_forall_eq_nat]
  rw [sum_eq]
  constructor
  · intro finished thread isThread
    rcases finished thread isThread with ⟨reply, returned⟩
    simp [CacheThread.remaining, returned, Stage.progress, longestCall]
  · intro done thread isThread
    rcases List.mem_iff_getElem?.mp isThread with ⟨place, here⟩
    rcases orderly.stands here with ⟨key, -, stands⟩
    apply stands.exists_reply
    have none_left := done thread isThread
    have bound := thread.stage.progress_le_longestCall
    simp only [CacheThread.remaining] at none_left
    omega

/-- After a turn of all threads a step less is left, unless all calls have returned. -/
theorem Orderly.remaining_run_range (orderly : machine.Orderly) :
    (machine.run (List.range machine.threads.length)).remaining ≤ machine.remaining - 1 := by
  cases left : machine.remaining with
  | zero =>
      have bound := orderly.remaining_run_le (List.range machine.threads.length)
      omega
  | succ count =>
      have unfinished : ¬machine.Finished := by
        rw [orderly.finished_iff, left]
        exact Nat.succ_ne_zero count
      have waiting : ∃ thread ∈ machine.threads, thread.stage.progress < longestCall := by
        apply Decidable.byContradiction
        intro nobody
        apply unfinished
        intro thread isThread
        rcases List.mem_iff_getElem?.mp isThread with ⟨place, here⟩
        rcases orderly.stands here with ⟨key, -, stands⟩
        apply stands.exists_reply
        apply Nat.le_antisymm thread.stage.progress_le_longestCall
        exact Nat.le_of_not_lt fun less => nobody ⟨thread, isThread, less⟩
      rcases waiting with ⟨thread, isThread, less⟩
      rcases List.mem_iff_getElem?.mp isThread with ⟨place, here⟩
      rcases orderly.exists_moving here less with ⟨mover, inside, next, moves⟩
      have lower := orderly.remaining_run_lt (List.mem_range.mpr inside) moves
      omega

theorem Orderly.remaining_turns (orderly : machine.Orderly) (rounds : Nat) :
    (machine.run (List.replicate rounds (List.range machine.threads.length)).flatten).remaining ≤
      machine.remaining - rounds := by
  induction rounds generalizing machine with
  | zero => exact Nat.le_refl _
  | succ rounds ih =>
      have later := ih (orderly.run (List.range machine.threads.length))
      have round := orderly.remaining_run_range
      rw [orderly.length_run] at later
      rw [List.replicate_succ, List.flatten_cons, run_append]
      omega

/-- All calls return when the threads take turns. -/
theorem Orderly.finished_turns (orderly : machine.Orderly) :
    (machine.run (turns machine.threads.length)).Finished := by
  rw [(orderly.run _).finished_iff]
  have left := orderly.remaining_turns (longestCall * machine.threads.length)
  have bound := machine.remaining_le
  unfold turns
  omega

end CacheMachine

end FontCatalog
