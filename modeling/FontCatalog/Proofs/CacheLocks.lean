import FontCatalog.Cache.Interleaving

/-!
# Locks of interleaved calls

What a step of the cache machine does is said once, for every call: one thread moves on, and no
other thread changes. A property that every step keeps holds after every schedule. The first such
property is mutual exclusion: a thread only holds a lock that it held before its step or that was
free, so no lock is ever held by two threads.
-/

namespace FontCatalog

variable {Key Value : Type} [DecidableEq Key]

namespace CacheThread

/-- A lock that a thread holds after its step is one it held before or had to wait for. -/
theorem holds?_or_wants?_of_advance {thread : CacheThread Key Value} {cache after : Cache Key Value}
    {stage : Stage Value} {lock : CacheLock}
    (advanced : thread.advance cache = some (after, stage)) (holds : stage.holds? = some lock) :
    thread.stage.holds? = some lock ∨ thread.stage.wants? = some lock := by
  rcases thread with ⟨call, before⟩
  cases before with
  | outside waypoint =>
      cases waypoint with
      | called =>
          cases advanced
          exact Or.inr holds
      | atSlot slot =>
          cases advanced
          exact Or.inr holds
      | counting rest count =>
          cases rest with
          | nil =>
              cases advanced
              cases holds
          | cons slot rest =>
              cases advanced
              exact Or.inr holds
      | returned reply => cases advanced
  | inIndex =>
      cases advanced
      exact Or.inl holds
  | inSlot slot =>
      left
      simp only [advance, workInSlot, Option.some.injEq] at advanced
      split at advanced
      · cases advanced
        exact holds
      · cases advanced
        exact holds
      · split at advanced
        · cases advanced
          exact holds
        · cases advanced
          exact holds
      · cases advanced
        exact holds
      · cases advanced
        exact holds
  | loading slot =>
      cases advanced
      exact Or.inl holds
  | countingIn slot rest count =>
      cases advanced
      exact Or.inl holds
  | leaving lock next =>
      cases advanced
      cases holds

end CacheThread

namespace CacheMachine

variable {machine next : CacheMachine Key Value} {place : Nat}

theorem step?_eq_some_iff :
    machine.step? place = some next ↔
      ∃ thread cache stage, machine.threads[place]? = some thread ∧
        machine.canGo thread = true ∧ thread.advance machine.cache = some (cache, stage) ∧
        next = ⟨cache, machine.threads.set place { thread with stage }⟩ := by
  simp only [step?, Option.bind_eq_bind, Option.bind_eq_some_iff]
  constructor
  · rintro ⟨thread, here, stepped⟩
    split at stepped
    · rename_i free
      rcases Option.bind_eq_some_iff.mp stepped with ⟨⟨cache, stage⟩, advanced, isNext⟩
      exact ⟨thread, cache, stage, here, free, advanced, (Option.some.inj isNext).symm⟩
    · cases stepped
  · rintro ⟨thread, cache, stage, here, free, advanced, rfl⟩
    exact ⟨thread, here, by simp [free, advanced]⟩

omit [DecidableEq Key] in
theorem getElem?_threads_set {threads : List (CacheThread Key Value)}
    {moved thread : CacheThread Key Value} {place other : Nat}
    (there : (threads.set place moved)[other]? = some thread) :
    (other = place ∧ thread = moved) ∨ (other ≠ place ∧ threads[other]? = some thread) := by
  by_cases same : other = place
  · subst same
    rw [List.getElem?_set] at there
    simp only [if_true] at there
    split at there
    · exact Or.inl ⟨rfl, (Option.some.inj there).symm⟩
    · cases there
  · rw [List.getElem?_set_ne (Ne.symm same)] at there
    exact Or.inr ⟨same, there⟩

/-! ## Schedules -/

@[simp]
theorem run_nil (machine : CacheMachine Key Value) : machine.run [] = machine := rfl

theorem run_cons (machine : CacheMachine Key Value) (place : Nat) (schedule : List Nat) :
    machine.run (place :: schedule) = ((machine.step? place).getD machine).run schedule := rfl

/-- What every step keeps holds after every schedule. -/
theorem run_induction {motive : CacheMachine Key Value → Prop}
    (step : ∀ {now next place}, motive now → now.step? place = some next → motive next)
    {machine : CacheMachine Key Value} (initial : motive machine) (schedule : List Nat) :
    motive (machine.run schedule) := by
  induction schedule generalizing machine with
  | nil => exact initial
  | cons place rest ih =>
      rw [run_cons]
      cases stepped : machine.step? place with
      | none => exact ih initial
      | some next => exact ih (step initial stepped)

/-! ## Mutual exclusion -/

/-- No lock is held by two threads. -/
def Exclusive (machine : CacheMachine Key Value) : Prop :=
  ∀ {left right : Nat} {leftThread rightThread : CacheThread Key Value} {lock : CacheLock},
    machine.threads[left]? = some leftThread → machine.threads[right]? = some rightThread →
      leftThread.stage.holds? = some lock → rightThread.stage.holds? = some lock → left = right

omit [DecidableEq Key] in
theorem not_holds_of_canGo {thread other : CacheThread Key Value} {lock : CacheLock} {there : Nat}
    (free : machine.canGo thread = true) (wants : thread.stage.wants? = some lock)
    (isOther : machine.threads[there]? = some other) : other.stage.holds? ≠ some lock := by
  simp only [canGo, wants, isFree, List.all_eq_true, decide_eq_true_eq] at free
  exact free other (List.mem_of_getElem? isOther)

omit [DecidableEq Key] in
theorem exclusive_start (cache : Cache Key Value) (calls : List (CacheCall Key Value)) :
    (start cache calls).Exclusive := by
  intro left right leftThread rightThread lock isLeft _ leftHolds
  simp only [start, List.getElem?_map, Option.map_eq_some_iff] at isLeft
  rcases isLeft with ⟨call, -, rfl⟩
  cases leftHolds

theorem exclusive_step (exclusive : machine.Exclusive)
    (stepped : machine.step? place = some next) : next.Exclusive := by
  rcases step?_eq_some_iff.mp stepped with ⟨thread, cache, stage, here, free, advanced, rfl⟩
  -- The thread that moved against any other: the lock was its own already, or it was free.
  have apart {other : Nat} {otherThread : CacheThread Key Value} {lock : CacheLock}
      (different : other ≠ place) (isOther : machine.threads[other]? = some otherThread)
      (movedHolds : stage.holds? = some lock) (otherHolds : otherThread.stage.holds? = some lock) :
      False := by
    rcases thread.holds?_or_wants?_of_advance advanced movedHolds with held | wanted
    · exact different (exclusive isOther here otherHolds held)
    · exact not_holds_of_canGo free wanted isOther otherHolds
  intro left right leftThread rightThread lock isLeft isRight leftHolds rightHolds
  rcases getElem?_threads_set isLeft with ⟨rfl, rfl⟩ | ⟨leftOther, wasLeft⟩
  · rcases getElem?_threads_set isRight with ⟨rfl, rfl⟩ | ⟨rightOther, wasRight⟩
    · rfl
    · exact (apart rightOther wasRight leftHolds rightHolds).elim
  · rcases getElem?_threads_set isRight with ⟨rfl, rfl⟩ | ⟨rightOther, wasRight⟩
    · exact (apart leftOther wasLeft rightHolds leftHolds).elim
    · exact exclusive wasLeft wasRight leftHolds rightHolds

end CacheMachine

end FontCatalog
