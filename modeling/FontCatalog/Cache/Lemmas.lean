import FontCatalog.Cache.Basic

/-!
# Caches as maps

A cache is seen through `get?`. Putting a value under a key changes what that key holds and nothing
else, clearing leaves nothing, and a call that loads at need runs its loader exactly when the key
holds nothing. Slots, and whether there is an empty one, cannot be seen.
-/

namespace FontCatalog.Cache

variable {Key Value : Type}

theorem content_eq_none_of_le {cache : Cache Key Value} {slot : Nat}
    (beyond : cache.slots.length ≤ slot) : cache.content slot = none := by
  simp [content, List.getElem?_eq_none beyond]

theorem content_fill {cache : Cache Key Value} {slot : Nat} (value : Value) (other : Nat)
    (isMade : slot < cache.slots.length) :
    (cache.fill slot value).content other =
      if other = slot then some value else cache.content other := by
  unfold content fill
  by_cases same : other = slot
  · subst same
    simp [List.getElem?_set_self isMade]
  · rw [List.getElem?_set_ne (fun equal => same equal.symm), if_neg same]

variable [DecidableEq Key]

theorem slot?_lt {cache : Cache Key Value} {key : Key} {slot : Nat}
    (found : cache.slot? key = some slot) : slot < cache.slots.length :=
  cache.made (key, slot) (Association.mem_pairs_of_get? found)

theorem eq_of_slot?_eq {cache : Cache Key Value} {left right : Key} {slot : Nat}
    (foundLeft : cache.slot? left = some slot) (foundRight : cache.slot? right = some slot) :
    left = right := by
  have unique : ∀ pairs : List (Key × Nat), (pairs.map Prod.snd).Nodup →
      (left, slot) ∈ pairs → (right, slot) ∈ pairs → left = right := by
    intro pairs distinct leftMem rightMem
    induction pairs with
    | nil => cases leftMem
    | cons pair rest ih =>
        rw [List.map_cons, List.nodup_cons] at distinct
        rcases List.mem_cons.mp leftMem with leftHere | leftLater
        · rcases List.mem_cons.mp rightMem with rightHere | rightLater
          · exact (Prod.mk.injEq .. ▸ leftHere.trans rightHere.symm).1
          · exact absurd (List.mem_map.mpr ⟨_, rightLater, by rw [← leftHere]⟩) distinct.1
        · rcases List.mem_cons.mp rightMem with rightHere | rightLater
          · exact absurd (List.mem_map.mpr ⟨_, leftLater, by rw [← rightHere]⟩) distinct.1
          · exact ih distinct.2 leftLater rightLater
  exact unique cache.index.pairs cache.apart (Association.mem_pairs_of_get? foundLeft)
    (Association.mem_pairs_of_get? foundRight)

@[simp]
theorem slot?_fill (cache : Cache Key Value) (slot : Nat) (value : Value) (key : Key) :
    (cache.fill slot value).slot? key = cache.slot? key := rfl

theorem slot?_attach (cache : Cache Key Value) (key other : Key)
    (absent : cache.slot? key = none) :
    (cache.attach key absent).slot? other =
      if other = key then some cache.slots.length else cache.slot? other :=
  Association.get?_insert cache.index key other cache.slots.length

@[simp]
theorem content_attach (cache : Cache Key Value) (key : Key) (absent : cache.slot? key = none)
    (slot : Nat) : (cache.attach key absent).content slot = cache.content slot := by
  unfold content attach
  rcases Nat.lt_trichotomy slot cache.slots.length with old | new | beyond
  · rw [List.getElem?_append_left old]
  · subst new
    simp
  · rw [List.getElem?_eq_none (by simpa using Nat.succ_le_of_lt beyond),
      List.getElem?_eq_none (Nat.le_of_lt beyond)]

@[simp]
theorem get?_attach (cache : Cache Key Value) (key other : Key)
    (absent : cache.slot? key = none) :
    (cache.attach key absent).get? other = cache.get? other := by
  unfold get?
  rw [slot?_attach]
  by_cases same : other = key
  · subst same
    simp [absent, content_eq_none_of_le]
  · simp [same]

theorem slotFor_of_found {cache : Cache Key Value} {key : Key} {slot : Nat}
    (found : cache.slot? key = some slot) : cache.slotFor key = (cache, slot) := by
  unfold slotFor
  split
  · rename_i other isFound
    rw [Option.some.inj (isFound.symm.trans found)]
  · rename_i absent
    rw [found] at absent
    cases absent

theorem slotFor_of_absent {cache : Cache Key Value} {key : Key}
    (absent : cache.slot? key = none) :
    cache.slotFor key = (cache.attach key absent, cache.slots.length) := by
  unfold slotFor
  split
  · rename_i found
    rw [absent] at found
    cases found
  · rfl

theorem slot?_slotFor (cache : Cache Key Value) (key : Key) :
    (cache.slotFor key).1.slot? key = some (cache.slotFor key).2 := by
  cases found : cache.slot? key with
  | none => rw [slotFor_of_absent found, slot?_attach, if_pos rfl]
  | some slot => rw [slotFor_of_found found, found]

@[simp]
theorem get?_slotFor (cache : Cache Key Value) (key other : Key) :
    (cache.slotFor key).1.get? other = cache.get? other := by
  cases found : cache.slot? key with
  | none => rw [slotFor_of_absent found, get?_attach]
  | some slot => rw [slotFor_of_found found]

theorem content_slotFor (cache : Cache Key Value) (key : Key) :
    (cache.slotFor key).1.content (cache.slotFor key).2 = cache.get? key := by
  rw [← get?_slotFor cache key key]
  simp [get?, slot?_slotFor]

theorem get?_fill {cache : Cache Key Value} {key : Key} {slot : Nat}
    (found : cache.slot? key = some slot) (value : Value) (other : Key) :
    (cache.fill slot value).get? other = if other = key then some value else cache.get? other := by
  unfold get?
  rw [slot?_fill]
  by_cases same : other = key
  · subst same
    simp [found, content_fill value slot (slot?_lt found)]
  · rw [if_neg same]
    cases otherFound : cache.slot? other with
    | none => rfl
    | some place =>
        have apart : place ≠ slot := fun equal =>
          same (eq_of_slot?_eq (equal ▸ otherFound) found)
        simp [content_fill value place (slot?_lt found), apart]

@[simp]
theorem get?_empty (key : Key) : (empty : Cache Key Value).get? key = none := rfl

@[simp]
theorem get?_clear (cache : Cache Key Value) (key : Key) : cache.clear.get? key = none := rfl

theorem get?_put (cache : Cache Key Value) (key other : Key) (value : Value) :
    (cache.put key value).get? other = if other = key then some value else cache.get? other := by
  unfold put
  rw [get?_fill (slot?_slotFor cache key), get?_slotFor]

/-- The loader runs exactly when the key holds nothing. -/
theorem snd_getOrLoad (cache : Cache Key Value) (key : Key) (attempt : Attempt Value) :
    (cache.getOrLoad key attempt).2 =
      match cache.get? key with
      | some value => .held value
      | none => .ran attempt := by
  unfold getOrLoad
  simp only [content_slotFor]
  cases cache.get? key with
  | some value => rfl
  | none => cases attempt <;> rfl

/-- What is loaded is kept, and a loader that comes up with nothing leaves no trace. -/
theorem get?_getOrLoad (cache : Cache Key Value) (key other : Key) (attempt : Attempt Value) :
    (cache.getOrLoad key attempt).1.get? other =
      if other = key then (cache.get? key).or attempt.value? else cache.get? other := by
  unfold getOrLoad
  simp only [content_slotFor]
  cases held : cache.get? key with
  | some value =>
      by_cases same : other = key
      · simp [same, held]
      · simp [same]
  | none =>
      cases attempt with
      | loaded value => simp [get?_fill (slot?_slotFor cache key), Attempt.value?]
      | failed =>
          by_cases same : other = key
          · simp [same, held, Attempt.value?]
          · simp [same]
      | panicked =>
          by_cases same : other = key
          · simp [same, held, Attempt.value?]
          · simp [same]

/-- Looking up first and storing afterwards comes to the same end. -/
theorem snd_lookThenStore (cache : Cache Key Value) (key : Key) (attempt : Attempt Value) :
    (cache.lookThenStore key attempt).2 = (cache.getOrLoad key attempt).2 := by
  rw [snd_getOrLoad]
  unfold lookThenStore
  cases cache.get? key with
  | some value => rfl
  | none => cases attempt <;> rfl

end FontCatalog.Cache
