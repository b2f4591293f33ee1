import FontCatalog.Association

/-!
# Caches

A cache keeps values that are expensive to load under their keys. Every key that was asked for has
a slot, which may be empty; what a slot holds is read and written apart from the index that leads
from keys to slots. Clearing a cache detaches all slots from their keys and leaves their contents
alone, so that a call that found its slot before can finish its work without being seen by later
calls.
-/

namespace FontCatalog

/-- What comes of running a loader. -/
inductive Attempt (Value : Type) where
  | loaded (value : Value)
  | failed
  | panicked
deriving DecidableEq

/-- How a call that loads at need came to its end: the value was there, or the loader ran. -/
inductive Outcome (Value : Type) where
  | held (value : Value)
  | ran (attempt : Attempt Value)
deriving DecidableEq

/-- The value that a loader came up with. -/
def Attempt.value? {Value : Type} : Attempt Value → Option Value
  | loaded value => some value
  | failed => none
  | panicked => none

/-- The value that a call returns. -/
def Outcome.value? {Value : Type} : Outcome Value → Option Value
  | held value => some value
  | ran attempt => attempt.value?

/-- The loader ran. -/
def Outcome.isRun {Value : Type} : Outcome Value → Bool
  | held _ => false
  | ran _ => true

/-- Values under keys, by way of slots. -/
structure Cache (Key Value : Type) where
  /-- The slots that are attached to keys. -/
  index : Association Key Nat
  /-- The contents of all slots that were ever made, by their numbers. -/
  slots : List (Option Value)
  /-- Only slots that were made are attached. -/
  made : ∀ pair ∈ index.pairs, pair.2 < slots.length
  /-- No slot is attached to two keys. -/
  apart : (index.pairs.map Prod.snd).Nodup

namespace Cache

variable {Key Value : Type} [DecidableEq Key]

/-- The cache without keys. -/
def empty : Cache Key Value where
  index := .empty
  slots := []
  made := fun _ member => absurd member List.not_mem_nil
  apart := List.nodup_nil

/-- The slot that is attached to a key. -/
def slot? (cache : Cache Key Value) (key : Key) : Option Nat :=
  cache.index.get? key

/-- What a slot holds. -/
def content (cache : Cache Key Value) (slot : Nat) : Option Value :=
  (cache.slots[slot]?).join

/-- The slots that are attached to keys. -/
def attached (cache : Cache Key Value) : List Nat :=
  cache.index.pairs.map Prod.snd

/-- The cache with a value in a slot. -/
def fill (cache : Cache Key Value) (slot : Nat) (value : Value) : Cache Key Value where
  index := cache.index
  slots := cache.slots.set slot (some value)
  made := by simpa using cache.made
  apart := cache.apart

/-- The cache with a new, empty slot for a key that has none. -/
def attach (cache : Cache Key Value) (key : Key) (absent : cache.slot? key = none) :
    Cache Key Value where
  index := cache.index.insert key cache.slots.length
  slots := cache.slots ++ [none]
  made := by
    have pairs := cache.index.pairs_insert_of_absent key cache.slots.length absent
    intro pair member
    rw [pairs, List.mem_append, List.mem_singleton] at member
    rw [List.length_append, List.length_singleton]
    cases member with
    | inl old => exact Nat.lt_succ_of_lt (cache.made pair old)
    | inr new => exact new ▸ Nat.lt_succ_self _
  apart := by
    rw [cache.index.pairs_insert_of_absent key cache.slots.length absent, List.map_append]
    refine List.nodup_append.mpr ⟨cache.apart, by simp, ?_⟩
    intro slot slotMem new newMem equal
    obtain ⟨pair, pairMem, rfl⟩ := List.mem_map.mp slotMem
    simp only [List.map_cons, List.map_nil, List.mem_singleton] at newMem
    exact Nat.ne_of_lt (cache.made pair pairMem) (equal.trans newMem)

/-- The slot of a key, which is made if there is none. -/
def slotFor (cache : Cache Key Value) (key : Key) : Cache Key Value × Nat :=
  match found : cache.slot? key with
  | some slot => (cache, slot)
  | none => (cache.attach key found, cache.slots.length)

/-- The value under a key. -/
def get? (cache : Cache Key Value) (key : Key) : Option Value := do
  let slot ← cache.slot? key
  cache.content slot

/-- The cache with a value under a key. -/
def put (cache : Cache Key Value) (key : Key) (value : Value) : Cache Key Value :=
  let (attached, slot) := cache.slotFor key
  attached.fill slot value

/-- The value under a key, or else what the loader comes up with, which is kept. A loader that
comes up with nothing leaves the slot empty. -/
def getOrLoad (cache : Cache Key Value) (key : Key) (attempt : Attempt Value) :
    Cache Key Value × Outcome Value :=
  let (attached, slot) := cache.slotFor key
  match attached.content slot with
  | some value => (attached, .held value)
  | none =>
      match attempt with
      | .loaded value => (attached.fill slot value, .ran attempt)
      | .failed => (attached, .ran attempt)
      | .panicked => (attached, .ran attempt)

/-- The same by looking up first and storing afterwards, as two calls. -/
def lookThenStore (cache : Cache Key Value) (key : Key) (attempt : Attempt Value) :
    Cache Key Value × Outcome Value :=
  match cache.get? key with
  | some value => (cache, .held value)
  | none =>
      match attempt with
      | .loaded value => (cache.put key value, .ran attempt)
      | .failed => (cache, .ran attempt)
      | .panicked => (cache, .ran attempt)

/-- The cache after all slots have been detached. -/
def clear (cache : Cache Key Value) : Cache Key Value where
  index := .empty
  slots := cache.slots
  made := fun _ member => absurd member List.not_mem_nil
  apart := List.nodup_nil

/-- The number of keys with a value. -/
def size (cache : Cache Key Value) : Nat :=
  cache.attached.countP fun slot => (cache.content slot).isSome

/-- No key has a value. -/
def isEmpty (cache : Cache Key Value) : Bool :=
  cache.size == 0

end Cache

end FontCatalog
