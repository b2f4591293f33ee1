import FontCatalog.Proofs.CacheChronicle
import FontCatalog.Proofs.CacheTurns
import Mathlib.Logic.Relation

/-!
# Lock discipline

Which locks a thread holds is read off the chronicle, from the locks that it has taken and given
back. No thread ever takes a lock while it holds one, so that threads which hold locks never wait,
and nobody waits in a circle: a call that has to wait does so for a thread that can go on. What it
waits for is the index, or else the slot that it has found for its key. A cache is asked whether it
is empty by counting its values, which needs no step of its own.
-/

namespace FontCatalog

variable {Key Value : Type}

namespace Stage

/-- The stages under the lock of the index. -/
def isInIndex : Stage Value → Bool
  | inIndex => true
  | leaving .index _ => true
  | _ => false

theorem isInIndex_of_holds? {stage : Stage Value} (holds : stage.holds? = some .index) :
    stage.isInIndex = true := by
  cases stage with
  | inIndex => rfl
  | leaving lock waypoint =>
      cases holds
      rfl
  | _ => cases holds

theorem wants?_eq_none_of_holds? {stage : Stage Value} {lock : CacheLock}
    (holds : stage.holds? = some lock) : stage.wants? = none := by
  cases stage with
  | outside waypoint => cases holds
  | _ => rfl

end Stage

namespace Recalls

variable {place slot : Nat} {call : CacheCall Key Value} {deeds : Chronicle Key Value}
  {stage : Stage Value} {key : Key}

/-- A call on a key waits for no other slot than the one it has found for the key. -/
theorem found_of_wants? (recalls : Recalls place call deeds stage) (isKey : call.key? = some key)
    (wants : stage.wants? = some (.slot slot)) : (place, .found key slot) ∈ deeds := by
  cases recalls with
  | outside knows =>
      cases knows with
      | atSlot sameKey found =>
          cases isKey.symm.trans sameKey
          cases wants
          exact Chronicle.mem_of_searches_eq found
      | counting isCount listed part isFull =>
          subst isCount
          cases isKey
      | _ => cases wants
  | _ => cases wants

/-- A call that holds the lock of a slot counts, or it has found the slot for its key. -/
theorem found_of_holds? (recalls : Recalls place call deeds stage)
    (holds : stage.holds? = some (.slot slot)) :
    call = .count ∨ ∃ key, call.key? = some key ∧ (place, .found key slot) ∈ deeds := by
  cases recalls with
  | outside knows => cases holds
  | inIndex fresh => cases holds
  | inSlot isKey found =>
      cases holds
      exact Or.inr ⟨_, isKey, Chronicle.mem_of_searches_eq found⟩
  | loading isLoad found =>
      subst isLoad
      cases holds
      exact Or.inr ⟨_, rfl, Chronicle.mem_of_searches_eq found⟩
  | countingIn isCount listed part isFull => exact Or.inl isCount
  | leavingIndex knows => cases holds
  | leavingSlot isKey found knows =>
      cases holds
      exact Or.inr ⟨_, isKey, Chronicle.mem_of_searches_eq found⟩
  | leavingCounted isCount knows => exact Or.inl isCount

end Recalls

variable [DecidableEq Key]

namespace CacheMachine

/-- A thread has to take a lock that another one has taken and not given back. -/
def WaitsFor (machine : CacheMachine Key Value) (deeds : Chronicle Key Value)
    (place other : Nat) : Prop :=
  ∃ thread lock, machine.threads[place]? = some thread ∧ thread.stage.wants? = some lock ∧
    lock ∈ deeds.heldBy other

/-- How the threads of a cache deal with its locks. -/
structure Disciplined (machine : CacheMachine Key Value) (deeds : Chronicle Key Value) : Prop where
  /-- No thread holds two locks. -/
  single : ∀ place, (deeds.heldBy place).length ≤ 1
  /-- Whoever takes a lock holds none. -/
  unladen : ∀ {later earlier : Chronicle Key Value} {place : Nat} {lock : CacheLock},
    deeds = later ++ (place, .took lock) :: earlier → earlier.heldBy place = []
  /-- Whoever holds a lock waits for none. -/
  unwaiting : ∀ {place lock thread}, lock ∈ deeds.heldBy place →
    machine.threads[place]? = some thread → thread.stage.wants? = none
  exclusive : ∀ {left right lock}, lock ∈ deeds.heldBy left → lock ∈ deeds.heldBy right →
    left = right
  isFree_iff : ∀ lock, machine.isFree lock = true ↔ ∀ place, lock ∉ deeds.heldBy place
  acyclic : ∀ place, ¬Relation.TransGen (machine.WaitsFor deeds) place place
  /-- A call that has not returned can go on, or it waits for a thread that can. -/
  moves : ∀ {place thread}, machine.threads[place]? = some thread → thread.stage.reply? = none →
    (∃ next, machine.step? place = some next) ∨
      ∃ other next, machine.WaitsFor deeds place other ∧ machine.step? other = some next
  progress : ¬machine.Finished → ∃ place next, machine.step? place = some next
  /-- What holds up a call on a key is a thread under the lock of the index, or else a count or a
  call on the same key that holds the slot which the call has found for its key. -/
  hindered : ∀ {place other thread key}, machine.threads[place]? = some thread →
    thread.call.key? = some key → machine.WaitsFor deeds place other →
    ∃ blocker, machine.threads[other]? = some blocker ∧
      (blocker.stage.isInIndex = true ∧ deeds.heldBy other = [.index] ∨
        ∃ slot, deeds.heldBy other = [.slot slot] ∧ (place, .found key slot) ∈ deeds ∧
          (blocker.call = .count ∨ blocker.call.key? = some key))
  /-- A loader that runs for one key holds up no call on another one, not even through calls that
  wait in between. -/
  unblocked : ∀ {place other slot thread key loadedKey attempt},
    machine.threads[place]? = some thread → thread.call.key? = some key →
    machine.threads[other]? = some ⟨.getOrLoad loadedKey attempt, .loading slot⟩ →
    loadedKey ≠ key → ¬Relation.TransGen (machine.WaitsFor deeds) place other

end CacheMachine

namespace Chronicled

open CacheMachine

variable {machine : CacheMachine Key Value} {deeds : Chronicle Key Value}
  {place other : Nat} {thread : CacheThread Key Value} {lock : CacheLock} {key : Key}

theorem mem_heldBy_iff (chronicled : Chronicled machine deeds) :
    lock ∈ deeds.heldBy place ↔
      ∃ thread, machine.threads[place]? = some thread ∧ thread.stage.holds? = some lock := by
  rw [chronicled.heldBy_eq, Option.mem_toList, Option.bind_eq_some_iff]

theorem heldBy_eq_singleton (chronicled : Chronicled machine deeds)
    (here : machine.threads[place]? = some thread) (holds : thread.stage.holds? = some lock) :
    deeds.heldBy place = [lock] := by
  rw [chronicled.heldBy_eq, here, Option.bind_some, holds, Option.toList_some]

theorem unwaiting (chronicled : Chronicled machine deeds) (held : lock ∈ deeds.heldBy place)
    (here : machine.threads[place]? = some thread) : thread.stage.wants? = none := by
  rcases chronicled.mem_heldBy_iff.mp held with ⟨_, isThread, holds⟩
  cases here.symm.trans isThread
  exact Stage.wants?_eq_none_of_holds? holds

theorem isFree_iff (chronicled : Chronicled machine deeds) (lock : CacheLock) :
    machine.isFree lock = true ↔ ∀ place, lock ∉ deeds.heldBy place := by
  simp only [isFree, List.all_eq_true, decide_eq_true_eq]
  constructor
  · intro free place held
    rcases chronicled.mem_heldBy_iff.mp held with ⟨thread, here, holds⟩
    exact free thread (List.mem_of_getElem? here) holds
  · intro unheld thread isThread holds
    rcases List.mem_iff_getElem?.mp isThread with ⟨place, here⟩
    exact unheld place (chronicled.mem_heldBy_iff.mpr ⟨thread, here, holds⟩)

/-! ## Waiting -/

/-- Whoever is waited for does not wait. -/
theorem not_waitsFor_of_waitsFor (chronicled : Chronicled machine deeds)
    (waits : machine.WaitsFor deeds place other) (third : Nat) :
    ¬machine.WaitsFor deeds other third := by
  rcases waits with ⟨thread, lock, -, -, held⟩
  rintro ⟨blocker, wanted, there, wants, -⟩
  rw [chronicled.unwaiting held there] at wants
  cases wants

theorem waitsFor_of_transGen (chronicled : Chronicled machine deeds)
    (waits : Relation.TransGen (machine.WaitsFor deeds) place other) :
    machine.WaitsFor deeds place other := by
  rcases Relation.TransGen.head'_iff.mp waits with ⟨second, first, rest⟩
  rcases Relation.ReflTransGen.cases_head rest with rfl | ⟨third, next, -⟩
  · exact first
  · exact absurd next (chronicled.not_waitsFor_of_waitsFor first third)

theorem acyclic (chronicled : Chronicled machine deeds) (place : Nat) :
    ¬Relation.TransGen (machine.WaitsFor deeds) place place := by
  intro circle
  have waits := chronicled.waitsFor_of_transGen circle
  exact chronicled.not_waitsFor_of_waitsFor waits place waits

theorem moves (chronicled : Chronicled machine deeds)
    (here : machine.threads[place]? = some thread) (unfinished : thread.stage.reply? = none) :
    (∃ next, machine.step? place = some next) ∨
      ∃ other next, machine.WaitsFor deeds place other ∧ machine.step? other = some next := by
  have ready := CacheThread.isSome_advance unfinished machine.cache
  cases wants : thread.stage.wants? with
  | none => exact Or.inl (exists_step here wants ready)
  | some lock =>
      by_cases held : ∃ other, lock ∈ deeds.heldBy other
      · rcases held with ⟨other, held⟩
        rcases chronicled.mem_heldBy_iff.mp held with ⟨blocker, there, holds⟩
        have going : blocker.stage.reply? = none := by
          cases isReply : blocker.stage.reply? with
          | none => rfl
          | some reply =>
              rw [Stage.eq_of_reply? isReply] at holds
              cases holds
        rcases exists_step there (Stage.wants?_eq_none_of_holds? holds)
          (CacheThread.isSome_advance going machine.cache) with ⟨next, stepped⟩
        exact Or.inr ⟨other, next, ⟨thread, lock, here, wants, held⟩, stepped⟩
      · have free : machine.canGo thread = true := by
          simp only [canGo, wants]
          apply (chronicled.isFree_iff lock).mpr
          intro other isHeld
          exact held ⟨other, isHeld⟩
        rcases Option.isSome_iff_exists.mp ready with ⟨⟨cache, stage⟩, advanced⟩
        exact Or.inl ⟨_, step?_eq_some_iff.mpr ⟨thread, cache, stage, here, free, advanced, rfl⟩⟩

theorem progress (chronicled : Chronicled machine deeds) (unfinished : ¬machine.Finished) :
    ∃ place next, machine.step? place = some next := by
  have going : ∃ thread ∈ machine.threads, thread.stage.reply? = none := by
    apply Decidable.byContradiction
    intro nobody
    apply unfinished
    intro thread isThread
    cases isReply : thread.stage.reply? with
    | none => exact absurd ⟨thread, isThread, isReply⟩ nobody
    | some reply => exact ⟨reply, Stage.eq_of_reply? isReply⟩
  rcases going with ⟨thread, isThread, going⟩
  rcases List.mem_iff_getElem?.mp isThread with ⟨place, here⟩
  rcases chronicled.moves here going with ⟨next, stepped⟩ | ⟨other, next, -, stepped⟩
  · exact ⟨place, next, stepped⟩
  · exact ⟨other, next, stepped⟩

/-! ## Who holds up whom -/

theorem hindered (chronicled : Chronicled machine deeds)
    (here : machine.threads[place]? = some thread) (isKey : thread.call.key? = some key)
    (waits : machine.WaitsFor deeds place other) :
    ∃ blocker, machine.threads[other]? = some blocker ∧
      (blocker.stage.isInIndex = true ∧ deeds.heldBy other = [.index] ∨
        ∃ slot, deeds.heldBy other = [.slot slot] ∧ (place, .found key slot) ∈ deeds ∧
          (blocker.call = .count ∨ blocker.call.key? = some key)) := by
  rcases waits with ⟨_, lock, isThread, wants, held⟩
  cases here.symm.trans isThread
  rcases chronicled.mem_heldBy_iff.mp held with ⟨blocker, there, holds⟩
  refine ⟨blocker, there, ?_⟩
  have holdsOnly := chronicled.heldBy_eq_singleton there holds
  cases lock with
  | index => exact Or.inl ⟨Stage.isInIndex_of_holds? holds, holdsOnly⟩
  | slot slot =>
      have found := (chronicled.recalls here).found_of_wants? isKey wants
      refine Or.inr ⟨slot, holdsOnly, found, ?_⟩
      rcases (chronicled.recalls there).found_of_holds? holds with
        isCount | ⟨otherKey, isOtherKey, otherFound⟩
      · exact Or.inl isCount
      · cases chronicled.traced.oneKey found otherFound
        exact Or.inr isOtherKey

theorem unblocked {slot : Nat} {loadedKey : Key} {attempt : Attempt Value}
    (chronicled : Chronicled machine deeds) (here : machine.threads[place]? = some thread)
    (isKey : thread.call.key? = some key)
    (loading : machine.threads[other]? = some ⟨.getOrLoad loadedKey attempt, .loading slot⟩)
    (differs : loadedKey ≠ key) : ¬Relation.TransGen (machine.WaitsFor deeds) place other := by
  intro path
  have waits := chronicled.waitsFor_of_transGen path
  rcases chronicled.hindered here isKey waits with
    ⟨blocker, there, ⟨inIndex, -⟩ | ⟨_, -, -, isCount | sameKey⟩⟩
  · cases loading.symm.trans there
    cases inIndex
  · cases loading.symm.trans there
    cases isCount
  · cases loading.symm.trans there
    exact differs (Option.some.inj sameKey)

theorem disciplined (chronicled : Chronicled machine deeds) : machine.Disciplined deeds where
  single := by
    intro place
    rw [chronicled.heldBy_eq, Option.length_toList]
    split <;> omega
  unladen := chronicled.unladen
  unwaiting := chronicled.unwaiting
  exclusive := by
    intro left right lock isLeft isRight
    rcases chronicled.mem_heldBy_iff.mp isLeft with ⟨leftThread, wasLeft, leftHolds⟩
    rcases chronicled.mem_heldBy_iff.mp isRight with ⟨rightThread, wasRight, rightHolds⟩
    exact chronicled.exclusive wasLeft wasRight leftHolds rightHolds
  isFree_iff := chronicled.isFree_iff
  acyclic := chronicled.acyclic
  moves := chronicled.moves
  progress := chronicled.progress
  hindered := chronicled.hindered
  unblocked := chronicled.unblocked

end Chronicled

namespace CacheMachine

/-- Whatever calls are made on a cache, and in whatever order their steps are taken, its locks are
dealt with in an orderly way, and no call waits for good. -/
theorem disciplined_run (calls : List (CacheCall Key Value)) (schedule : List Nat) :
    ((start .empty calls).run schedule).Disciplined
      ((start .empty calls).chronicle schedule []) :=
  (Chronicled.run calls schedule).disciplined

/-- While a loader runs, a call on the same key waits and one on another key returns. -/
example :
    ((start .empty [.getOrLoad "SourceHan" (.loaded 1), .get "SourceHan",
        .getOrLoad "SourceSans" (.loaded 2)]).run
      [0, 0, 0, 0, 0, 1, 1, 1, 1, 2, 2, 2, 2, 2, 2, 2, 1]).replies =
      [none, none, some (.came (.ran (.loaded 2)))] := by
  decide

end CacheMachine

end FontCatalog
