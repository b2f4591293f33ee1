import FontCatalog.Proofs.CacheLookups

/-!
# Deeds on a shared cache

Where the threads of a cache machine stand does not tell what they have done, and slots outlive
their keys: a thread that found a slot before the cache was cleared goes on working on it. A
chronicle keeps the deeds of all threads, the latest first: which locks were taken and given back,
which slots were found for which keys, what was stored in them, and when the cache was cleared.

`Traced` ties a cache to its chronicle. A slot belongs to one key for good, all calls that ever
found it did so between the same two clearings, and only such calls store anything in it.
-/

namespace FontCatalog

/-- What a step of a thread does. -/
inductive Deed (Key Value : Type) where
  | took (lock : CacheLock)
  | gaveBack (lock : CacheLock)
  /-- The slot of a key was found or made. -/
  | found (key : Key) (slot : Nat)
  /-- The slots that are to be counted were listed. -/
  | listed (slots : List Nat)
  | cleared
  | stored (slot : Nat) (value : Value)
  /-- A slot was found full in counting. -/
  | counted (slot : Nat)
deriving DecidableEq

/-- Deeds with the places of the threads that did them, the latest first. -/
abbrev Chronicle (Key Value : Type) := List (Nat × Deed Key Value)

variable {Key Value : Type}

namespace Deed

/-- The deed that empties the table of keys. -/
def isClearing : Deed Key Value → Bool
  | cleared => true
  | _ => false

variable [DecidableEq Key]

/-- What a deed makes of the cache. -/
def effect (cache : Cache Key Value) : Deed Key Value → Cache Key Value
  | found key _ => (cache.slotFor key).1
  | stored slot value => cache.fill slot value
  | cleared => cache.clear
  | _ => cache

/-- The deed can be done by the thread at a place after earlier ones. -/
def Fits (cache : Cache Key Value) (deeds : Chronicle Key Value) (place : Nat) :
    Deed Key Value → Prop
  | found key slot => slot = (cache.slotFor key).2
  | stored slot _ => ∃ key, (place, found key slot) ∈ deeds
  | listed slots => slots = cache.attached
  | _ => True

end Deed

namespace Chronicle

/-- The deeds since the latest clearing. -/
def recent (deeds : Chronicle Key Value) : Chronicle Key Value :=
  deeds.takeWhile fun entry => !entry.2.isClearing

/-- The latest clearing and the deeds before it. -/
def outdated (deeds : Chronicle Key Value) : Chronicle Key Value :=
  deeds.dropWhile fun entry => !entry.2.isClearing

/-- What was stored in a slot last. -/
def stored? (slot : Nat) : Chronicle Key Value → Option Value
  | [] => none
  | (_, .stored other value) :: earlier => if other = slot then some value else stored? slot earlier
  | _ :: earlier => stored? slot earlier

/-- Something was stored in a slot. -/
def IsFilled (deeds : Chronicle Key Value) (slot : Nat) : Prop :=
  ∃ storer value, (storer, .stored slot value) ∈ deeds

variable {deeds after before : Chronicle Key Value} {slot place : Nat} {value : Value}

theorem IsFilled.mono {later : Chronicle Key Value} (filled : deeds.IsFilled slot)
    (goesOn : deeds ⊆ later) : later.IsFilled slot := by
  rcases filled with ⟨storer, value, stored⟩
  exact ⟨storer, value, goesOn stored⟩

theorem outdated_cons_of_not_clearing {entry : Nat × Deed Key Value}
    (goesOn : entry.2.isClearing = false) :
    Chronicle.outdated (entry :: deeds) = deeds.outdated := by
  simp [outdated, goesOn]

theorem outdated_cons_cleared (place : Nat) (deeds : Chronicle Key Value) :
    Chronicle.outdated ((place, .cleared) :: deeds) = (place, .cleared) :: deeds := by
  simp [outdated, Deed.isClearing]

/-- What was done before some clearing was done before the latest one. -/
theorem mem_outdated_of_split {clearer : Nat} {entry : Nat × Deed Key Value}
    (split : deeds = after ++ (clearer, .cleared) :: before) (early : entry ∈ before) :
    entry ∈ deeds.outdated := by
  subst split
  induction after with
  | nil =>
      rw [List.nil_append, outdated_cons_cleared]
      exact List.mem_cons_of_mem _ early
  | cons first rest ih =>
      cases isClearing : first.2.isClearing with
      | true =>
          rcases first with ⟨other, deed⟩
          cases deed <;> cases isClearing
          rw [List.cons_append, outdated_cons_cleared]
          simp [early]
      | false =>
          rw [List.cons_append, outdated_cons_of_not_clearing isClearing]
          exact ih

theorem exists_split_of_stored? (isStored : deeds.stored? slot = some value) :
    ∃ later storer earlier, deeds = later ++ (storer, .stored slot value) :: earlier ∧
      ∀ other newer, (other, .stored slot newer) ∉ later := by
  induction deeds with
  | nil => cases isStored
  | cons entry rest ih =>
      rcases entry with ⟨other, deed⟩
      -- A deed that stores nothing in the slot goes in front of what was found behind it.
      have pass (passes : Chronicle.stored? slot rest = some value)
          (differs : ∀ newer, deed ≠ .stored slot newer) :
          ∃ later storer earlier,
            (other, deed) :: rest = later ++ (storer, .stored slot value) :: earlier ∧
              ∀ other newer, (other, .stored slot newer) ∉ later := by
        rcases ih passes with ⟨later, storer, earlier, rfl, none⟩
        refine ⟨(other, deed) :: later, storer, earlier, rfl, ?_⟩
        intro another newer inside
        rcases List.mem_cons.mp inside with isFirst | behind
        · exact differs newer (Prod.mk.inj isFirst).2.symm
        · exact none another newer behind
      cases deed with
      | stored place held =>
          by_cases same : place = slot
          · subst same
            simp only [stored?, if_true, Option.some.injEq] at isStored
            subst isStored
            exact ⟨[], other, rest, rfl, fun _ _ => List.not_mem_nil⟩
          · simp only [stored?, if_neg same] at isStored
            exact pass isStored fun newer equal => same (Deed.stored.inj equal).1
      | _ => exact pass isStored (by simp)

end Chronicle

namespace Cache

variable [DecidableEq Key] {cache : Cache Key Value} {key other : Key} {slot : Nat}

theorem length_le_length_slotFor (cache : Cache Key Value) (key : Key) :
    cache.slots.length ≤ (cache.slotFor key).1.slots.length := by
  cases found : cache.slot? key with
  | none => simp [slotFor_of_absent found, attach]
  | some slot => simp [slotFor_of_found found]

/-- A key has a slot after a search that had it before, or it is the one that was searched. -/
theorem slot?_slotFor_cases (found : (cache.slotFor key).1.slot? other = some slot) :
    cache.slot? other = some slot ∨ other = key ∧ slot = (cache.slotFor key).2 := by
  cases present : cache.slot? key with
  | some held =>
      rw [slotFor_of_found present] at found
      exact Or.inl found
  | none =>
      rw [slotFor_of_absent present] at found ⊢
      rw [slot?_attach] at found
      split at found
      · rename_i same
        exact Or.inr ⟨same, (Option.some.inj found).symm⟩
      · exact Or.inl found

/-- A search that gives a slot which was made before gives the slot that the key had. -/
theorem slot?_of_slotFor_lt (isMade : (cache.slotFor key).2 < cache.slots.length) :
    cache.slot? key = some (cache.slotFor key).2 := by
  cases present : cache.slot? key with
  | some held => rw [slotFor_of_found present]
  | none =>
      rw [slotFor_of_absent present] at isMade
      exact absurd isMade (Nat.lt_irrefl _)

theorem exists_key_of_mem_attached (inside : slot ∈ cache.attached) :
    ∃ key, cache.slot? key = some slot := by
  rcases List.mem_map.mp inside with ⟨⟨key, held⟩, isPair, rfl⟩
  exact ⟨key, Association.get?_eq_some_iff.mpr isPair⟩

end Cache

/-! ## Caches and their chronicles -/

variable [DecidableEq Key]

/-- What a cache holds comes from deeds, and its slots are told apart by them. -/
structure Traced (cache : Cache Key Value) (deeds : Chronicle Key Value) : Prop where
  made : ∀ {place key slot}, (place, .found key slot) ∈ deeds → slot < cache.slots.length
  key_eq : ∀ {place key slot other}, (place, .found key slot) ∈ deeds →
    cache.slot? other = some slot → other = key
  /-- No slot that was found before the latest clearing is attached to a key. -/
  detached : ∀ {place key slot other}, (place, .found key slot) ∈ deeds.outdated →
    cache.slot? other ≠ some slot
  content_eq : ∀ slot, cache.content slot = deeds.stored? slot
  oneKey : ∀ {left right leftKey rightKey slot}, (left, .found leftKey slot) ∈ deeds →
    (right, .found rightKey slot) ∈ deeds → leftKey = rightKey
  /-- A slot that was found before a clearing is neither found nor listed after it. -/
  oneEra : ∀ {after before clearer place key slot},
    deeds = after ++ (clearer, .cleared) :: before → (place, .found key slot) ∈ before →
      (∀ other otherKey, (other, .found otherKey slot) ∉ after) ∧
        ∀ other slots, (other, .listed slots) ∈ after → slot ∉ slots
  /-- Who stores something in a slot has found it before. -/
  sourced : ∀ {later earlier place slot value},
    deeds = later ++ (place, .stored slot value) :: earlier →
      ∃ key, (place, .found key slot) ∈ earlier

namespace Traced

variable {cache : Cache Key Value} {deeds : Chronicle Key Value} {place : Nat}
  {deed : Deed Key Value} {key other : Key} {slot : Nat}

theorem start : Traced (Cache.empty : Cache Key Value) [] where
  made := by simp
  key_eq := by simp
  detached := by simp [Chronicle.outdated]
  content_eq := fun _ => rfl
  oneKey := by simp
  oneEra := by simp
  sourced := by simp

/-- A slot that is found again belongs to the same key, and was not found before the latest
clearing. -/
theorem again (traced : Traced cache deeds)
    (before : (place, .found other (cache.slotFor key).2) ∈ deeds) :
    key = other ∧ ∀ earlier earlierKey,
      (earlier, .found earlierKey (cache.slotFor key).2) ∉ deeds.outdated := by
  have attached := Cache.slot?_of_slotFor_lt (traced.made before)
  exact ⟨traced.key_eq before attached, fun _ _ early => traced.detached early attached⟩

theorem made_step (traced : Traced cache deeds) (fits : deed.Fits cache deeds place)
    {finder : Nat} (found : (finder, .found key slot) ∈ (place, deed) :: deeds) :
    slot < (deed.effect cache).slots.length := by
  rcases List.mem_cons.mp found with isNow | before
  · cases isNow
    subst fits
    exact Cache.slot?_lt (cache.slot?_slotFor key)
  · have isMade := traced.made before
    cases deed with
    | found sought _ => exact Nat.lt_of_lt_of_le isMade (cache.length_le_length_slotFor sought)
    | stored filled value =>
        simp only [Deed.effect, Cache.fill, List.length_set]
        exact isMade
    | _ => exact isMade

theorem key_eq_step (traced : Traced cache deeds) (fits : deed.Fits cache deeds place)
    {finder : Nat} (found : (finder, .found key slot) ∈ (place, deed) :: deeds)
    (attached : (deed.effect cache).slot? other = some slot) : other = key := by
  cases deed with
  | found sought held =>
      subst fits
      rcases List.mem_cons.mp found with isNow | before
      · cases isNow
        exact Cache.eq_of_slot?_eq attached (cache.slot?_slotFor key)
      · rcases Cache.slot?_slotFor_cases attached with already | ⟨rfl, rfl⟩
        · exact traced.key_eq before already
        · exact (traced.again before).1
  | cleared => cases attached
  | _ =>
      simp only [List.mem_cons, Prod.mk.injEq, reduceCtorEq, and_false, false_or] at found
      exact traced.key_eq found attached

theorem detached_step (traced : Traced cache deeds) (fits : deed.Fits cache deeds place)
    {finder : Nat}
    (early : (finder, .found key slot) ∈ Chronicle.outdated ((place, deed) :: deeds)) :
    (deed.effect cache).slot? other ≠ some slot := by
  cases deed with
  | cleared =>
      intro attached
      cases attached
  | found sought held =>
      subst fits
      rw [Chronicle.outdated_cons_of_not_clearing rfl] at early
      intro attached
      rcases Cache.slot?_slotFor_cases attached with already | ⟨rfl, rfl⟩
      · exact traced.detached early already
      · exact (traced.again (List.dropWhile_subset _ early)).2 _ _ early
  | _ =>
      rw [Chronicle.outdated_cons_of_not_clearing rfl] at early
      exact traced.detached early

theorem content_eq_step (traced : Traced cache deeds) (fits : deed.Fits cache deeds place)
    (slot : Nat) :
    (deed.effect cache).content slot = Chronicle.stored? slot ((place, deed) :: deeds) := by
  have before := traced.content_eq slot
  cases deed with
  | found sought held => exact (cache.content_slotFor_eq sought slot).trans before
  | stored filled value =>
      rcases fits with ⟨key, isFound⟩
      simp only [Deed.effect, Chronicle.stored?]
      rw [Cache.content_fill value slot (traced.made isFound), before]
      simp only [eq_comm]
  | _ => exact before

theorem oneKey_step (traced : Traced cache deeds) (fits : deed.Fits cache deeds place)
    {left right : Nat} (isLeft : (left, .found key slot) ∈ (place, deed) :: deeds)
    (isRight : (right, .found other slot) ∈ (place, deed) :: deeds) : key = other := by
  rcases List.mem_cons.mp isLeft with leftNow | wasLeft
  · cases leftNow
    rcases List.mem_cons.mp isRight with rightNow | wasRight
    · cases rightNow
      rfl
    · subst fits
      exact (traced.again wasRight).1
  · rcases List.mem_cons.mp isRight with rightNow | wasRight
    · cases rightNow
      subst fits
      exact (traced.again wasLeft).1.symm
    · exact traced.oneKey wasLeft wasRight

theorem oneEra_step (traced : Traced cache deeds) (fits : deed.Fits cache deeds place)
    {after before : Chronicle Key Value} {clearer finder : Nat}
    (split : (place, deed) :: deeds = after ++ (clearer, .cleared) :: before)
    (early : (finder, .found key slot) ∈ before) :
    (∀ other otherKey, (other, .found otherKey slot) ∉ after) ∧
      ∀ other slots, (other, .listed slots) ∈ after → slot ∉ slots := by
  rcases List.cons_eq_append_iff.mp split with ⟨rfl, -⟩ | ⟨rest, rfl, isRest⟩
  · simp
  · have apart := traced.oneEra isRest early
    have outdated := Chronicle.mem_outdated_of_split isRest early
    refine ⟨?_, ?_⟩
    · intro other otherKey late
      rcases List.mem_cons.mp late with isNow | before
      · cases isNow
        subst fits
        exact (traced.again (List.dropWhile_subset _ outdated)).2 _ _ outdated
      · exact apart.1 other otherKey before
    · intro other slots late inside
      rcases List.mem_cons.mp late with isNow | before
      · cases isNow
        subst fits
        rcases Cache.exists_key_of_mem_attached inside with ⟨attachedKey, attached⟩
        exact traced.detached outdated attached
      · exact apart.2 other slots before inside

theorem sourced_step (traced : Traced cache deeds) (fits : deed.Fits cache deeds place)
    {later earlier : Chronicle Key Value} {storer : Nat} {value : Value}
    (split : (place, deed) :: deeds = later ++ (storer, .stored slot value) :: earlier) :
    ∃ key, (storer, .found key slot) ∈ earlier := by
  rcases List.cons_eq_append_iff.mp split with ⟨rfl, isNow⟩ | ⟨rest, rfl, isRest⟩
  · cases isNow
    exact fits
  · exact traced.sourced isRest

theorem step (traced : Traced cache deeds) (fits : deed.Fits cache deeds place) :
    Traced (deed.effect cache) ((place, deed) :: deeds) where
  made := traced.made_step fits
  key_eq := traced.key_eq_step fits
  detached := traced.detached_step fits
  content_eq := traced.content_eq_step fits
  oneKey := traced.oneKey_step fits
  oneEra := traced.oneEra_step fits
  sourced := traced.sourced_step fits

end Traced

end FontCatalog
