import FontCatalog.Cache.Basic

/-!
# Interleaved calls on a cache

Several threads share one cache, and each of them makes one call on it. A call takes the lock of
the index to find its slot, gives it back, and then takes the lock of the slot to work on its
content; a call that loads at need keeps the lock of the slot while its loader runs. One step of
the machine is one step of one thread: to take a lock, to work under it, or to give it back. A
thread whose next lock is held by another thread has no step.

Every sequence of steps, given as the list of the threads that take them, is a schedule.
-/

namespace FontCatalog

/-- A call on a cache. -/
inductive CacheCall (Key Value : Type) where
  | get (key : Key)
  | put (key : Key) (value : Value)
  | getOrLoad (key : Key) (attempt : Attempt Value)
  | clear
  | count
deriving DecidableEq

/-- What a call returns. -/
inductive CacheReply (Value : Type) where
  | found (value? : Option Value)
  | done
  | came (outcome : Outcome Value)
  | counted (count : Nat)
deriving DecidableEq

/-- A lock: that of the index, or that of a slot. -/
inductive CacheLock where
  | index
  | slot (number : Nat)
deriving DecidableEq

/-- Where a thread that holds no lock stands. -/
inductive Waypoint (Value : Type) where
  /-- The call has been made. -/
  | called
  /-- The slot has been found. -/
  | atSlot (slot : Nat)
  /-- Some slots have been counted, the rest have not. -/
  | counting (rest : List Nat) (count : Nat)
  /-- The call has returned. -/
  | returned (reply : CacheReply Value)
deriving DecidableEq

/-- Where a thread stands in its call. -/
inductive Stage (Value : Type) where
  /-- The thread holds no lock. -/
  | outside (waypoint : Waypoint Value)
  /-- The thread has taken the lock of the index. -/
  | inIndex
  /-- The thread has taken the lock of the slot. -/
  | inSlot (slot : Nat)
  /-- The thread holds the lock of the slot and its loader runs. -/
  | loading (slot : Nat)
  /-- The thread has taken the lock of a slot that is to be counted. -/
  | countingIn (slot : Nat) (rest : List Nat) (count : Nat)
  /-- The thread has done its work under a lock and is about to give it back. -/
  | leaving (lock : CacheLock) (next : Waypoint Value)
deriving DecidableEq

namespace Stage

variable {Value : Type}

/-- The lock that a thread holds. -/
def holds? : Stage Value → Option CacheLock
  | outside _ => none
  | inIndex => some .index
  | inSlot slot => some (.slot slot)
  | loading slot => some (.slot slot)
  | countingIn slot _ _ => some (.slot slot)
  | leaving lock _ => some lock

/-- The lock that a thread has to take next. -/
def wants? : Stage Value → Option CacheLock
  | outside .called => some .index
  | outside (.atSlot slot) => some (.slot slot)
  | outside (.counting (slot :: _) _) => some (.slot slot)
  | _ => none

/-- What the call returned. -/
def reply? : Stage Value → Option (CacheReply Value)
  | outside (.returned reply) => some reply
  | _ => none

end Stage

/-- A thread that makes a call. -/
structure CacheThread (Key Value : Type) where
  call : CacheCall Key Value
  stage : Stage Value

namespace CacheThread

variable {Key Value : Type} [DecidableEq Key]

/-- A thread that is about to make a call. -/
def start (call : CacheCall Key Value) : CacheThread Key Value :=
  ⟨call, .outside .called⟩

/-- The work under the lock of the index. -/
def searchIndex (call : CacheCall Key Value) (cache : Cache Key Value) :
    Cache Key Value × Waypoint Value :=
  match call with
  | .get key =>
      match cache.slot? key with
      | some slot => (cache, .atSlot slot)
      | none => (cache, .returned (.found none))
  | .put key _ | .getOrLoad key _ =>
      let (attached, slot) := cache.slotFor key
      (attached, .atSlot slot)
  | .clear => (cache.clear, .returned .done)
  | .count => (cache, .counting cache.attached 0)

/-- The work under the lock of the slot that was found, up to running the loader. -/
def workInSlot (call : CacheCall Key Value) (slot : Nat) (cache : Cache Key Value) :
    Cache Key Value × Stage Value :=
  match call with
  | .get _ => (cache, .leaving (.slot slot) (.returned (.found (cache.content slot))))
  | .put _ value => (cache.fill slot value, .leaving (.slot slot) (.returned .done))
  | .getOrLoad _ _ =>
      match cache.content slot with
      | some value => (cache, .leaving (.slot slot) (.returned (.came (.held value))))
      | none => (cache, .loading slot)
  | .clear | .count => (cache, .leaving (.slot slot) (.returned .done))

/-- The end of running the loader: what it came up with is stored. -/
def finishLoading (call : CacheCall Key Value) (slot : Nat) (cache : Cache Key Value) :
    Cache Key Value × Waypoint Value :=
  match call with
  | .getOrLoad _ (.loaded value) =>
      (cache.fill slot value, .returned (.came (.ran (.loaded value))))
  | .getOrLoad _ attempt => (cache, .returned (.came (.ran attempt)))
  | _ => (cache, .returned .done)

/-- The next step of a thread, where all locks that it needs are free. -/
def advance (thread : CacheThread Key Value) (cache : Cache Key Value) :
    Option (Cache Key Value × Stage Value) :=
  match thread.stage with
  | .outside .called => some (cache, .inIndex)
  | .outside (.atSlot slot) => some (cache, .inSlot slot)
  | .outside (.counting [] count) => some (cache, .outside (.returned (.counted count)))
  | .outside (.counting (slot :: rest) count) => some (cache, .countingIn slot rest count)
  | .outside (.returned _) => none
  | .inIndex =>
      let (searched, next) := searchIndex thread.call cache
      some (searched, .leaving .index next)
  | .inSlot slot => some (workInSlot thread.call slot cache)
  | .loading slot =>
      let (stored, next) := finishLoading thread.call slot cache
      some (stored, .leaving (.slot slot) next)
  | .countingIn slot rest count =>
      let counted := if (cache.content slot).isSome then count + 1 else count
      some (cache, .leaving (.slot slot) (.counting rest counted))
  | .leaving _ next => some (cache, .outside next)

end CacheThread

/-- A cache and the threads that share it. -/
structure CacheMachine (Key Value : Type) where
  cache : Cache Key Value
  threads : List (CacheThread Key Value)

namespace CacheMachine

variable {Key Value : Type} [DecidableEq Key]

/-- A cache on which every call of a list is about to be made by a thread of its own. -/
def start (cache : Cache Key Value) (calls : List (CacheCall Key Value)) :
    CacheMachine Key Value :=
  ⟨cache, calls.map CacheThread.start⟩

/-- No thread holds the lock. -/
def isFree (machine : CacheMachine Key Value) (lock : CacheLock) : Bool :=
  machine.threads.all fun thread => thread.stage.holds? ≠ some lock

/-- The thread does not have to wait for a lock. -/
def canGo (machine : CacheMachine Key Value) (thread : CacheThread Key Value) : Bool :=
  match thread.stage.wants? with
  | some lock => machine.isFree lock
  | none => true

/-- The machine after a step of the thread at a place, if that thread has a step. -/
def step? (machine : CacheMachine Key Value) (place : Nat) :
    Option (CacheMachine Key Value) := do
  let thread ← machine.threads[place]?
  if machine.canGo thread then
    let (cache, stage) ← thread.advance machine.cache
    some ⟨cache, machine.threads.set place { thread with stage }⟩
  else none

/-- The machine after a schedule; threads without a step are passed over. -/
def run (machine : CacheMachine Key Value) (schedule : List Nat) : CacheMachine Key Value :=
  schedule.foldl (fun now place => (now.step? place).getD now) machine

/-- A call that works on one key returns after at most this many steps: three under the lock of the
index, four under that of its slot. -/
def longestCall : Nat := 7

/-- A schedule that takes the threads in turns, often enough for calls that work on one key to
return: in every turn at least one thread has a step. -/
def turns (threads : Nat) : List Nat :=
  (List.replicate (longestCall * threads) (List.range threads)).flatten

/-- What the calls returned, in the order of the threads. -/
def replies (machine : CacheMachine Key Value) : List (Option (CacheReply Value)) :=
  machine.threads.map fun thread => thread.stage.reply?

end CacheMachine

end FontCatalog
