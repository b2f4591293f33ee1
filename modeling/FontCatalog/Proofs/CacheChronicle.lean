import FontCatalog.Proofs.CacheDeeds

/-!
# Chronicles of interleaved calls

Every step of the cache machine does at most one deed, and a schedule leaves a chronicle of them.
`CallStep` lists what a step of any call can do, and `Recalls` says where a call may stand, given
what it has done before: it searches the index once, and works in no other slots than those it found
there. With what is known of the cache and of the locks this is the invariant `Chronicled` of all
runs.
-/

namespace FontCatalog

variable {Key Value : Type}

/-- The key that a call works on. -/
def CacheCall.key? : CacheCall Key Value → Option Key
  | .get key => some key
  | .put key _ => some key
  | .getOrLoad key _ => some key
  | _ => none

/-- The value that a reply hands out from a slot. -/
def CacheReply.held? : CacheReply Value → Option Value
  | .found value? => value?
  | .came (.held value) => some value
  | _ => none

theorem Stage.eq_of_reply? {stage : Stage Value} {reply : CacheReply Value}
    (isReply : stage.reply? = some reply) : stage = .outside (.returned reply) := by
  unfold reply? at isReply
  split at isReply
  · cases isReply
    rfl
  · cases isReply

/-- Something was found in the index, or the index was cleared. -/
def Deed.isSearch : Deed Key Value → Bool
  | .found _ _ => true
  | .listed _ => true
  | .cleared => true
  | _ => false

namespace Chronicle

/-- What a thread did in the index. -/
def searches (place : Nat) (deeds : Chronicle Key Value) : List (Deed Key Value) :=
  (deeds.filter fun entry => entry.1 == place && entry.2.isSearch).map Prod.snd

/-- The locks that a thread has taken and not given back. -/
def heldBy (place : Nat) : Chronicle Key Value → List CacheLock
  | [] => []
  | (other, .took lock) :: earlier =>
      if other = place then lock :: heldBy place earlier else heldBy place earlier
  | (other, .gaveBack lock) :: earlier =>
      if other = place then (heldBy place earlier).erase lock else heldBy place earlier
  | _ :: earlier => heldBy place earlier

variable {deeds : Chronicle Key Value} {deed : Deed Key Value} {place other : Nat}

@[simp]
theorem searches_append (first second : Chronicle Key Value) :
    Chronicle.searches place (first ++ second) = first.searches place ++ second.searches place := by
  simp [searches]

theorem mem_searches :
    deed ∈ deeds.searches place ↔ (place, deed) ∈ deeds ∧ deed.isSearch = true := by
  simp only [searches, List.mem_map, List.mem_filter, Bool.and_eq_true, beq_iff_eq]
  constructor
  · rintro ⟨⟨finder, found⟩, ⟨inside, rfl, isSearch⟩, rfl⟩
    exact ⟨inside, isSearch⟩
  · rintro ⟨inside, isSearch⟩
    exact ⟨_, ⟨inside, rfl, isSearch⟩, rfl⟩

theorem mem_of_searches_eq (only : deeds.searches place = [deed]) : (place, deed) ∈ deeds := by
  apply (mem_searches.mp _).1
  rw [only]
  exact List.mem_singleton_self deed

theorem searches_cons_of_ne (different : place ≠ other) :
    Chronicle.searches place ((other, deed) :: deeds) = deeds.searches place := by
  simp [searches, Ne.symm different]

theorem searches_cons_of_not_search (goesOn : deed.isSearch = false) :
    Chronicle.searches place ((other, deed) :: deeds) = deeds.searches place := by
  simp [searches, goesOn]

theorem searches_cons_self (isSearch : deed.isSearch = true) :
    Chronicle.searches place ((place, deed) :: deeds) = deed :: deeds.searches place := by
  simp [searches, isSearch]

theorem heldBy_cons_of_ne (different : place ≠ other) :
    Chronicle.heldBy place ((other, deed) :: deeds) = deeds.heldBy place := by
  cases deed <;> simp [heldBy, Ne.symm different]

end Chronicle

variable [DecidableEq Key]

namespace CacheThread

/-- What the next step of a thread does, if it is more than to look on. -/
def deed? (thread : CacheThread Key Value) (cache : Cache Key Value) : Option (Deed Key Value) :=
  match thread.stage with
  | .outside _ => thread.stage.wants?.map .took
  | .inIndex =>
      match thread.call with
      | .get key => (cache.slot? key).map (.found key)
      | .put key _ | .getOrLoad key _ => some (.found key (cache.slotFor key).2)
      | .clear => some .cleared
      | .count => some (.listed cache.attached)
  | .inSlot slot =>
      match thread.call with
      | .put _ value => some (.stored slot value)
      | _ => none
  | .loading slot =>
      match thread.call with
      | .getOrLoad _ (.loaded value) => some (.stored slot value)
      | _ => none
  | .countingIn _ _ _ => none
  | .leaving lock _ => some (.gaveBack lock)

/-- A call that has not returned has a step when its locks are free. -/
theorem isSome_advance {thread : CacheThread Key Value} (unfinished : thread.stage.reply? = none)
    (cache : Cache Key Value) : (thread.advance cache).isSome := by
  unfold advance
  split
  case h_5 reply returned =>
    rw [returned] at unfinished
    cases unfinished
  all_goals rfl

end CacheThread

namespace CacheMachine

/-- What the step of the thread at a place adds to the chronicle. -/
def deedsAt (machine : CacheMachine Key Value) (place : Nat) : Chronicle Key Value :=
  match machine.threads[place]? with
  | some thread =>
      if machine.canGo thread then (thread.deed? machine.cache).toList.map (place, ·) else []
  | none => []

/-- The chronicle of a schedule, which goes on from earlier deeds. -/
def chronicle (machine : CacheMachine Key Value) :
    List Nat → Chronicle Key Value → Chronicle Key Value
  | [], deeds => deeds
  | place :: rest, deeds =>
      ((machine.step? place).getD machine).chronicle rest (machine.deedsAt place ++ deeds)

variable {machine next : CacheMachine Key Value} {place : Nat}

theorem deedsAt_of_canGo {thread : CacheThread Key Value}
    (here : machine.threads[place]? = some thread) (free : machine.canGo thread = true) :
    machine.deedsAt place = (thread.deed? machine.cache).toList.map (place, ·) := by
  simp [deedsAt, here, free]

theorem deedsAt_of_step?_eq_none (stuck : machine.step? place = none) :
    machine.deedsAt place = [] := by
  cases here : machine.threads[place]? with
  | none => simp [deedsAt, here]
  | some thread =>
      cases free : machine.canGo thread with
      | false => simp [deedsAt, here, free]
      | true =>
          rw [deedsAt_of_canGo here free]
          cases isReply : thread.stage.reply? with
          | some reply => simp [CacheThread.deed?, Stage.eq_of_reply? isReply, Stage.wants?]
          | none =>
              have moves := CacheThread.isSome_advance isReply machine.cache
              rcases Option.isSome_iff_exists.mp moves with ⟨after, advanced⟩
              simp [step?, here, free, advanced] at stuck

/-- What every step keeps, in view of what has been done, holds after every schedule. -/
theorem chronicle_induction {motive : CacheMachine Key Value → Chronicle Key Value → Prop}
    (step : ∀ {now next deeds place}, motive now deeds → now.step? place = some next →
      motive next (now.deedsAt place ++ deeds))
    {deeds : Chronicle Key Value} (initial : motive machine deeds) (schedule : List Nat) :
    motive (machine.run schedule) (machine.chronicle schedule deeds) := by
  induction schedule generalizing machine deeds with
  | nil => exact initial
  | cons place rest ih =>
      rw [run_cons, chronicle]
      cases stepped : machine.step? place with
      | none =>
          rw [deedsAt_of_step?_eq_none stepped]
          exact ih initial
      | some next => exact ih (step initial stepped)

end CacheMachine

/-! ## What a call remembers -/

/-- What a call knows at a waypoint. -/
inductive Knows (place : Nat) (call : CacheCall Key Value) (deeds : Chronicle Key Value) :
    Waypoint Value → Prop where
  | called (fresh : deeds.searches place = []) : Knows place call deeds .called
  | atSlot {key : Key} {slot : Nat} (isKey : call.key? = some key)
      (found : deeds.searches place = [.found key slot]) : Knows place call deeds (.atSlot slot)
  | counting {slots full rest : List Nat} (isCount : call = .count)
      (listed : deeds.searches place = [.listed slots]) (part : (full ++ rest).Sublist slots)
      (isFull : ∀ slot ∈ full, deeds.IsFilled slot) :
      Knows place call deeds (.counting rest full.length)
  | missed : Knows place call deeds (.returned (.found none))
  | done : Knows place call deeds (.returned .done)
  | ran {attempt : Attempt Value} : Knows place call deeds (.returned (.came (.ran attempt)))
  | held {key : Key} {slot storer : Nat} {value : Value} {reply : CacheReply Value}
      (isHeld : reply.held? = some value) (isKey : call.key? = some key)
      (found : deeds.searches place = [.found key slot])
      (stored : (storer, .stored slot value) ∈ deeds) : Knows place call deeds (.returned reply)
  | counted {slots full : List Nat} (listed : deeds.searches place = [.listed slots])
      (part : full.Sublist slots)
      (isFull : ∀ slot ∈ full, deeds.IsFilled slot) :
      Knows place call deeds (.returned (.counted full.length))

/-- Where a call may stand, given what has been done. -/
inductive Recalls (place : Nat) (call : CacheCall Key Value) (deeds : Chronicle Key Value) :
    Stage Value → Prop where
  | outside {waypoint : Waypoint Value} (knows : Knows place call deeds waypoint) :
      Recalls place call deeds (.outside waypoint)
  | inIndex (fresh : deeds.searches place = []) : Recalls place call deeds .inIndex
  | inSlot {key : Key} {slot : Nat} (isKey : call.key? = some key)
      (found : deeds.searches place = [.found key slot]) : Recalls place call deeds (.inSlot slot)
  | loading {key : Key} {slot : Nat} {attempt : Attempt Value}
      (isLoad : call = .getOrLoad key attempt)
      (found : deeds.searches place = [.found key slot]) : Recalls place call deeds (.loading slot)
  | countingIn {slot : Nat} {slots full rest : List Nat} (isCount : call = .count)
      (listed : deeds.searches place = [.listed slots])
      (part : (full ++ slot :: rest).Sublist slots)
      (isFull : ∀ slot ∈ full, deeds.IsFilled slot) :
      Recalls place call deeds (.countingIn slot rest full.length)
  | leavingIndex {waypoint : Waypoint Value} (knows : Knows place call deeds waypoint) :
      Recalls place call deeds (.leaving .index waypoint)
  | leavingSlot {key : Key} {slot : Nat} {waypoint : Waypoint Value}
      (isKey : call.key? = some key) (found : deeds.searches place = [.found key slot])
      (knows : Knows place call deeds waypoint) :
      Recalls place call deeds (.leaving (.slot slot) waypoint)
  | leavingCounted {slot : Nat} {waypoint : Waypoint Value} (isCount : call = .count)
      (knows : Knows place call deeds waypoint) :
      Recalls place call deeds (.leaving (.slot slot) waypoint)

section Memory

variable {place : Nat} {call : CacheCall Key Value} {deeds later : Chronicle Key Value}
  {waypoint : Waypoint Value} {stage : Stage Value} {deed : Deed Key Value}

omit [DecidableEq Key]

/-- What is known stays known while the call does not search the index again. -/
theorem Knows.mono (knows : Knows place call deeds waypoint)
    (same : later.searches place = deeds.searches place) (goesOn : deeds ⊆ later) :
    Knows place call later waypoint := by
  cases knows with
  | called fresh => exact .called (same.trans fresh)
  | atSlot isKey found => exact .atSlot isKey (same.trans found)
  | counting isCount listed part isFull =>
      exact .counting isCount (same.trans listed) part fun slot inside =>
        (isFull slot inside).mono goesOn
  | missed => exact .missed
  | done => exact .done
  | ran => exact .ran
  | held isHeld isKey found stored => exact .held isHeld isKey (same.trans found) (goesOn stored)
  | counted listed part isFull =>
      exact .counted (same.trans listed) part fun slot inside => (isFull slot inside).mono goesOn

theorem Recalls.mono (recalls : Recalls place call deeds stage)
    (same : later.searches place = deeds.searches place) (goesOn : deeds ⊆ later) :
    Recalls place call later stage := by
  cases recalls with
  | outside knows => exact .outside (knows.mono same goesOn)
  | inIndex fresh => exact .inIndex (same.trans fresh)
  | inSlot isKey found => exact .inSlot isKey (same.trans found)
  | loading isLoad found => exact .loading isLoad (same.trans found)
  | countingIn isCount listed part isFull =>
      exact .countingIn isCount (same.trans listed) part fun slot inside =>
        (isFull slot inside).mono goesOn
  | leavingIndex knows => exact .leavingIndex (knows.mono same goesOn)
  | leavingSlot isKey found knows =>
      exact .leavingSlot isKey (same.trans found) (knows.mono same goesOn)
  | leavingCounted isCount knows => exact .leavingCounted isCount (knows.mono same goesOn)

theorem Knows.cons (knows : Knows place call deeds waypoint) (isOther : deed.isSearch = false) :
    Knows place call ((place, deed) :: deeds) waypoint :=
  knows.mono (Chronicle.searches_cons_of_not_search isOther) (List.subset_cons_self _ _)

theorem Recalls.cons (recalls : Recalls place call deeds stage) (isOther : deed.isSearch = false) :
    Recalls place call ((place, deed) :: deeds) stage :=
  recalls.mono (Chronicle.searches_cons_of_not_search isOther) (List.subset_cons_self _ _)

theorem Stage.eq_of_settled? {reply : CacheReply Value} (settled : stage.settled? = some reply) :
    stage = .outside (.returned reply) ∨ ∃ lock, stage = .leaving lock (.returned reply) := by
  unfold settled? at settled
  split at settled
  · cases settled
    exact Or.inl rfl
  · cases settled
    exact Or.inr ⟨_, rfl⟩
  · cases settled

theorem Recalls.knows_of_settled? {reply : CacheReply Value}
    (recalls : Recalls place call deeds stage) (settled : stage.settled? = some reply) :
    Knows place call deeds (.returned reply) := by
  rcases Stage.eq_of_settled? settled with rfl | ⟨lock, rfl⟩
  · cases recalls with
    | outside knows => exact knows
  · cases recalls with
    | leavingIndex knows => exact knows
    | leavingSlot isKey found knows => exact knows
    | leavingCounted isCount knows => exact knows

/-- A call that hands out a value from a slot has found the slot, and somebody has stored the value
there. -/
theorem Recalls.exists_found {reply : CacheReply Value} {value : Value}
    (recalls : Recalls place call deeds stage) (settled : stage.settled? = some reply)
    (isHeld : reply.held? = some value) :
    ∃ key slot storer, call.key? = some key ∧ (place, .found key slot) ∈ deeds ∧
      (storer, .stored slot value) ∈ deeds := by
  have knows := recalls.knows_of_settled? settled
  cases knows with
  | held sameHeld isKey found stored =>
      cases isHeld.symm.trans sameHeld
      exact ⟨_, _, _, isKey, Chronicle.mem_of_searches_eq found, stored⟩
  | _ => cases isHeld

theorem Recalls.exists_listed {count : Nat} (recalls : Recalls place call deeds stage)
    (settled : stage.settled? = some (.counted count)) :
    ∃ slots full : List Nat, (place, .listed slots) ∈ deeds ∧ full.Sublist slots ∧
      count = full.length ∧
      ∀ slot ∈ full, deeds.IsFilled slot := by
  have knows := recalls.knows_of_settled? settled
  cases knows with
  | held isHeld isKey found stored => cases isHeld
  | counted listed part isFull =>
      exact ⟨_, _, Chronicle.mem_of_searches_eq listed, part, rfl, isFull⟩

end Memory

/-! ## Steps of a call -/

/-- What a step of a call can do: the stage before it, the deed, and the stage after it. -/
inductive CallStep (call : CacheCall Key Value) (cache : Cache Key Value) :
    Stage Value → Option (Deed Key Value) → Stage Value → Prop where
  | takeIndex : CallStep call cache (.outside .called) (some (.took .index)) .inIndex
  | findSlot {key : Key} (isKey : call.key? = some key) :
      CallStep call cache .inIndex (some (.found key (cache.slotFor key).2))
        (.leaving .index (.atSlot (cache.slotFor key).2))
  | missSlot {key : Key} (isGet : call = .get key) (absent : cache.slot? key = none) :
      CallStep call cache .inIndex none (.leaving .index (.returned (.found none)))
  | clear (isClear : call = .clear) :
      CallStep call cache .inIndex (some .cleared) (.leaving .index (.returned .done))
  | list (isCount : call = .count) :
      CallStep call cache .inIndex (some (.listed cache.attached))
        (.leaving .index (.counting cache.attached 0))
  | giveBack {lock : CacheLock} {next : Waypoint Value} :
      CallStep call cache (.leaving lock next) (some (.gaveBack lock)) (.outside next)
  | takeSlot {slot : Nat} :
      CallStep call cache (.outside (.atSlot slot)) (some (.took (.slot slot))) (.inSlot slot)
  | answer {key : Key} {slot : Nat} (isGet : call = .get key) :
      CallStep call cache (.inSlot slot) none
        (.leaving (.slot slot) (.returned (.found (cache.content slot))))
  | put {key : Key} {slot : Nat} {value : Value} (isPut : call = .put key value) :
      CallStep call cache (.inSlot slot) (some (.stored slot value))
        (.leaving (.slot slot) (.returned .done))
  | reuse {key : Key} {slot : Nat} {attempt : Attempt Value} {value : Value}
      (isLoad : call = .getOrLoad key attempt) (held : cache.content slot = some value) :
      CallStep call cache (.inSlot slot) none
        (.leaving (.slot slot) (.returned (.came (.held value))))
  | startLoading {key : Key} {slot : Nat} {attempt : Attempt Value}
      (isLoad : call = .getOrLoad key attempt) :
      CallStep call cache (.inSlot slot) none (.loading slot)
  | store {key : Key} {slot : Nat} {value : Value}
      (isLoad : call = .getOrLoad key (.loaded value)) :
      CallStep call cache (.loading slot) (some (.stored slot value))
        (.leaving (.slot slot) (.returned (.came (.ran (.loaded value)))))
  | giveUp {key : Key} {slot : Nat} {attempt : Attempt Value}
      (isLoad : call = .getOrLoad key attempt) :
      CallStep call cache (.loading slot) none
        (.leaving (.slot slot) (.returned (.came (.ran attempt))))
  | takeCounted {slot count : Nat} {rest : List Nat} :
      CallStep call cache (.outside (.counting (slot :: rest) count)) (some (.took (.slot slot)))
        (.countingIn slot rest count)
  | countFull {slot count : Nat} {rest : List Nat} {value : Value}
      (held : cache.content slot = some value) :
      CallStep call cache (.countingIn slot rest count) none
        (.leaving (.slot slot) (.counting rest (count + 1)))
  | passOver {slot count : Nat} {rest : List Nat} :
      CallStep call cache (.countingIn slot rest count) none
        (.leaving (.slot slot) (.counting rest count))
  | finishCount {count : Nat} :
      CallStep call cache (.outside (.counting [] count)) none
        (.outside (.returned (.counted count)))

section Steps

variable {place : Nat} {call : CacheCall Key Value} {cache after : Cache Key Value}
  {deeds : Chronicle Key Value} {stage next : Stage Value} {deed : Deed Key Value}
  {deed? : Option (Deed Key Value)}

theorem callStep_outside {waypoint : Waypoint Value} (knows : Knows place call deeds waypoint)
    (advanced : (CacheThread.mk call (.outside waypoint)).advance cache = some (after, next)) :
    CallStep call cache (.outside waypoint)
      ((CacheThread.mk call (.outside waypoint)).deed? cache) next := by
  cases knows with
  | called fresh => cases advanced; exact .takeIndex
  | atSlot isKey found => cases advanced; exact .takeSlot
  | @counting slots full rest isCount listed part isFull =>
      cases rest with
      | nil => cases advanced; exact .finishCount
      | cons slot rest => cases advanced; exact .takeCounted
  | _ => cases advanced

/-- A lookup finds the slot of its key, or nothing. -/
theorem callStep_get {key : Key}
    (advanced : (CacheThread.mk (.get key) .inIndex).advance cache = some (after, next)) :
    CallStep (.get key) cache .inIndex ((CacheThread.mk (.get key) .inIndex).deed? cache) next := by
  simp only [CacheThread.advance, CacheThread.searchIndex] at advanced
  cases found : cache.slot? key with
  | none =>
      rw [found] at advanced
      cases advanced
      simp only [CacheThread.deed?, found, Option.map_none]
      exact .missSlot rfl found
  | some slot =>
      rw [found] at advanced
      cases advanced
      have isSlot : slot = (cache.slotFor key).2 := by rw [Cache.slotFor_of_found found]
      simp only [CacheThread.deed?, found, Option.map_some, isSlot]
      exact .findSlot rfl

theorem callStep_inIndex
    (advanced : (CacheThread.mk call .inIndex).advance cache = some (after, next)) :
    CallStep call cache .inIndex ((CacheThread.mk call .inIndex).deed? cache) next := by
  cases call with
  | get key => exact callStep_get advanced
  | put key value => cases advanced; exact .findSlot rfl
  | getOrLoad key attempt => cases advanced; exact .findSlot rfl
  | clear => cases advanced; exact .clear rfl
  | count => cases advanced; exact .list rfl

theorem callStep_inSlot {key : Key} {slot : Nat} (isKey : call.key? = some key)
    (advanced : (CacheThread.mk call (.inSlot slot)).advance cache = some (after, next)) :
    CallStep call cache (.inSlot slot) ((CacheThread.mk call (.inSlot slot)).deed? cache)
      next := by
  cases call with
  | get other => cases advanced; exact .answer rfl
  | put other value => cases advanced; exact .put rfl
  | getOrLoad other attempt =>
      simp only [CacheThread.advance, CacheThread.workInSlot] at advanced
      split at advanced
      · rename_i value held
        cases advanced
        exact .reuse rfl held
      · cases advanced
        exact .startLoading rfl
  | clear => cases isKey
  | count => cases isKey

theorem callStep_loading {key : Key} {slot : Nat} {attempt : Attempt Value}
    (isLoad : call = .getOrLoad key attempt)
    (advanced : (CacheThread.mk call (.loading slot)).advance cache = some (after, next)) :
    CallStep call cache (.loading slot) ((CacheThread.mk call (.loading slot)).deed? cache)
      next := by
  subst isLoad
  cases attempt with
  | loaded value => cases advanced; exact .store rfl
  | failed => cases advanced; exact .giveUp rfl
  | panicked => cases advanced; exact .giveUp rfl

theorem callStep_countingIn {slot count : Nat} {rest : List Nat}
    (advanced : (CacheThread.mk call (.countingIn slot rest count)).advance cache =
      some (after, next)) :
    CallStep call cache (.countingIn slot rest count) none next := by
  simp only [CacheThread.advance] at advanced
  cases held : cache.content slot with
  | none =>
      simp only [held] at advanced
      cases advanced
      exact .passOver
  | some value =>
      simp only [held] at advanced
      cases advanced
      exact .countFull held

/-- A call does nothing but what is listed, where it can stand. -/
theorem callStep_of_advance (recalls : Recalls place call deeds stage)
    (advanced : (CacheThread.mk call stage).advance cache = some (after, next)) :
    CallStep call cache stage ((CacheThread.mk call stage).deed? cache) next := by
  cases recalls with
  | outside knows => exact callStep_outside knows advanced
  | inIndex fresh => exact callStep_inIndex advanced
  | inSlot isKey found => exact callStep_inSlot isKey advanced
  | loading isLoad found => exact callStep_loading isLoad advanced
  | countingIn isCount listed part isFull => exact callStep_countingIn advanced
  | leavingIndex knows => cases advanced; exact .giveBack
  | leavingSlot isKey found knows => cases advanced; exact .giveBack
  | leavingCounted isCount knows => cases advanced; exact .giveBack

/-- The cache after a step is what the deed makes of it. -/
theorem CacheThread.cache_eq_of_advance {thread : CacheThread Key Value}
    (advanced : thread.advance cache = some (after, next)) :
    after = (thread.deed? cache).elim cache (Deed.effect cache) := by
  rcases thread with ⟨call, stage⟩
  cases stage with
  | outside waypoint =>
      cases waypoint with
      | called => cases advanced; rfl
      | atSlot slot => cases advanced; rfl
      | counting rest count => cases rest <;> cases advanced <;> rfl
      | returned reply => cases advanced
  | inIndex =>
      cases call with
      | get key =>
          simp only [advance, searchIndex] at advanced
          cases found : cache.slot? key with
          | none =>
              rw [found] at advanced
              cases advanced
              simp [deed?, found]
          | some slot =>
              rw [found] at advanced
              cases advanced
              simp [deed?, found, Deed.effect, Cache.slotFor_of_found found]
      | _ => cases advanced; rfl
  | inSlot slot =>
      cases call with
      | getOrLoad key attempt =>
          simp only [advance, workInSlot] at advanced
          split at advanced <;> cases advanced <;> rfl
      | _ => cases advanced; rfl
  | loading slot =>
      cases call with
      | getOrLoad key attempt => cases attempt <;> cases advanced <;> rfl
      | _ => cases advanced; rfl
  | countingIn slot rest count => cases advanced; rfl
  | leaving lock waypoint => cases advanced; rfl

theorem Traced.exists_stored (traced : Traced cache deeds) {slot : Nat} {value : Value}
    (held : cache.content slot = some value) :
    ∃ storer, (storer, .stored slot value) ∈ deeds := by
  rw [traced.content_eq] at held
  rcases Chronicle.exists_split_of_stored? held with ⟨later, storer, earlier, rfl, -⟩
  exact ⟨storer, by simp⟩

/-! ### Single deeds

What a call knows when a deed has brought it from one stage to the next. -/

namespace Recalls

variable {key : Key} {slot count : Nat} {rest : List Nat} {value : Value}
  {waypoint : Waypoint Value}

section

omit [DecidableEq Key]

theorem fresh (recalls : Recalls place call deeds .inIndex) : deeds.searches place = [] := by
  cases recalls with
  | inIndex fresh => exact fresh

theorem exists_key (recalls : Recalls place call deeds (.inSlot slot)) :
    ∃ key, call.key? = some key ∧ deeds.searches place = [.found key slot] := by
  cases recalls with
  | inSlot isKey found => exact ⟨_, isKey, found⟩

theorem exists_key_of_loading (recalls : Recalls place call deeds (.loading slot)) :
    ∃ key, call.key? = some key ∧ deeds.searches place = [.found key slot] := by
  cases recalls with
  | loading isLoad found => exact ⟨_, by rw [isLoad]; rfl, found⟩

theorem tookIndex (recalls : Recalls place call deeds (.outside .called)) :
    Recalls place call ((place, .took .index) :: deeds) .inIndex := by
  cases recalls with
  | outside knows =>
      cases knows with
      | called fresh => exact .inIndex ((Chronicle.searches_cons_of_not_search rfl).trans fresh)

theorem foundSlot (recalls : Recalls place call deeds .inIndex) (isKey : call.key? = some key)
    (slot : Nat) :
    Recalls place call ((place, .found key slot) :: deeds) (.leaving .index (.atSlot slot)) := by
  have found : Chronicle.searches place ((place, .found key slot) :: deeds) =
      [.found key slot] := by
    rw [Chronicle.searches_cons_self rfl, recalls.fresh]
  exact .leavingIndex (.atSlot isKey found)

theorem listedSlots (recalls : Recalls place call deeds .inIndex) (isCount : call = .count)
    (slots : List Nat) :
    Recalls place call ((place, .listed slots) :: deeds)
      (.leaving .index (.counting slots 0)) := by
  have listed : Chronicle.searches place ((place, .listed slots) :: deeds) = [.listed slots] := by
    rw [Chronicle.searches_cons_self rfl, recalls.fresh]
  -- None of the slots has been counted.
  have part : ([] ++ slots).Sublist slots := List.Sublist.refl slots
  exact .leavingIndex (.counting isCount listed part (by simp))

theorem gaveBack {lock : CacheLock} (recalls : Recalls place call deeds (.leaving lock waypoint)) :
    Recalls place call ((place, .gaveBack lock) :: deeds) (.outside waypoint) := by
  cases recalls with
  | leavingIndex knows => exact .outside (knows.cons rfl)
  | leavingSlot isKey found knows => exact .outside (knows.cons rfl)
  | leavingCounted isCount knows => exact .outside (knows.cons rfl)

theorem tookSlot {lock : CacheLock} (recalls : Recalls place call deeds (.outside (.atSlot slot))) :
    Recalls place call ((place, .took lock) :: deeds) (.inSlot slot) := by
  cases recalls with
  | outside knows =>
      cases knows with
      | atSlot isKey found =>
          exact .inSlot isKey ((Chronicle.searches_cons_of_not_search rfl).trans found)

theorem leavesSlot (recalls : Recalls place call deeds (.inSlot slot))
    (knows : Knows place call deeds waypoint) :
    Recalls place call deeds (.leaving (.slot slot) waypoint) := by
  rcases recalls.exists_key with ⟨key, isKey, found⟩
  exact .leavingSlot isKey found knows

theorem startedLoading {attempt : Attempt Value} (recalls : Recalls place call deeds (.inSlot slot))
    (isLoad : call = .getOrLoad key attempt) : Recalls place call deeds (.loading slot) := by
  rcases recalls.exists_key with ⟨other, isKey, found⟩
  subst isLoad
  cases isKey
  exact .loading rfl found

theorem ranLoader (recalls : Recalls place call deeds (.loading slot)) (attempt : Attempt Value) :
    Recalls place call deeds (.leaving (.slot slot) (.returned (.came (.ran attempt)))) := by
  rcases recalls.exists_key_of_loading with ⟨key, isKey, found⟩
  exact .leavingSlot isKey found .ran

theorem tookCounted {lock : CacheLock}
    (recalls : Recalls place call deeds (.outside (.counting (slot :: rest) count))) :
    Recalls place call ((place, .took lock) :: deeds) (.countingIn slot rest count) := by
  cases recalls with
  | outside knows =>
      cases knows with
      | counting isCount listed part isFull =>
          exact (Recalls.countingIn isCount listed part isFull).cons rfl

theorem passedOver (recalls : Recalls place call deeds (.countingIn slot rest count)) :
    Recalls place call deeds (.leaving (.slot slot) (.counting rest count)) := by
  cases recalls with
  | @countingIn _ slots full _ isCount listed part isFull =>
      have fewer := (List.sublist_cons_self slot rest).append_left full
      exact .leavingCounted isCount (.counting isCount listed (fewer.trans part) isFull)

theorem finishedCount (recalls : Recalls place call deeds (.outside (.counting [] count))) :
    Recalls place call deeds (.outside (.returned (.counted count))) := by
  cases recalls with
  | outside knows =>
      cases knows with
      | counting isCount listed part isFull =>
          exact .outside (.counted listed (by simpa using part) isFull)

end

/-- What a call hands out from its slot was stored there. -/
theorem handedOut {reply : CacheReply Value} (recalls : Recalls place call deeds (.inSlot slot))
    (traced : Traced cache deeds) (held : cache.content slot = some value)
    (isHeld : reply.held? = some value) :
    Recalls place call deeds (.leaving (.slot slot) (.returned reply)) := by
  rcases recalls.exists_key with ⟨key, isKey, found⟩
  rcases traced.exists_stored held with ⟨storer, stored⟩
  exact recalls.leavesSlot (.held isHeld isKey found stored)

theorem answered (recalls : Recalls place call deeds (.inSlot slot))
    (traced : Traced cache deeds) :
    Recalls place call deeds
      (.leaving (.slot slot) (.returned (.found (cache.content slot)))) := by
  cases held : cache.content slot with
  | none => exact recalls.leavesSlot .missed
  | some value => exact recalls.handedOut traced held rfl

theorem countedFull (recalls : Recalls place call deeds (.countingIn slot rest count))
    (traced : Traced cache deeds) (held : cache.content slot = some value) :
    Recalls place call deeds (.leaving (.slot slot) (.counting rest (count + 1))) := by
  cases recalls with
  | @countingIn _ slots full _ isCount listed part isFull =>
      rcases traced.exists_stored held with ⟨storer, stored⟩
      have longer : full.length + 1 = (full ++ [slot]).length := by simp
      rw [longer]
      refine .leavingCounted isCount (.counting isCount listed (by simpa using part) ?_)
      intro other inside
      rcases List.mem_append.mp inside with before | isNow
      · exact isFull other before
      · cases List.mem_singleton.mp isNow
        exact ⟨storer, value, stored⟩

end Recalls

/-! ### All steps -/

namespace CallStep

theorem fits (step : CallStep call cache stage (some deed) next)
    (recalls : Recalls place call deeds stage) : deed.Fits cache deeds place := by
  cases step with
  | findSlot isKey => exact rfl
  | list isCount => exact rfl
  | put isPut =>
      rcases recalls.exists_key with ⟨key, -, found⟩
      exact ⟨key, Chronicle.mem_of_searches_eq found⟩
  | store isLoad =>
      rcases recalls.exists_key_of_loading with ⟨key, -, found⟩
      exact ⟨key, Chronicle.mem_of_searches_eq found⟩
  | _ => exact trivial

/-- A call searches the index once. -/
theorem fresh_of_isSearch (step : CallStep call cache stage (some deed) next)
    (recalls : Recalls place call deeds stage) (isSearch : deed.isSearch = true) :
    deeds.searches place = [] := by
  cases step with
  | findSlot isKey => exact recalls.fresh
  | clear isClear => exact recalls.fresh
  | list isCount => exact recalls.fresh
  | _ => cases isSearch

/-- A lock is only taken by a thread that holds none. -/
theorem holds?_of_took {lock : CacheLock}
    (step : CallStep call cache stage (some (.took lock)) next) :
    stage.holds? = none ∧ stage.wants? = some lock := by
  cases step <;> exact ⟨rfl, rfl⟩

/-- The deed tells which lock is held after the step. -/
theorem heldBy_step (step : CallStep call cache stage deed? next)
    (held : deeds.heldBy place = stage.holds?.toList) :
    Chronicle.heldBy place (deed?.toList.map (place, ·) ++ deeds) = next.holds?.toList := by
  have took {lock : CacheLock} (unladen : deeds.heldBy place = []) :
      Chronicle.heldBy place ((place, .took lock) :: deeds) = [lock] := by
    simp [Chronicle.heldBy, unladen]
  have gaveBack {lock : CacheLock} (only : deeds.heldBy place = [lock]) :
      Chronicle.heldBy place ((place, .gaveBack lock) :: deeds) = [] := by
    simp [Chronicle.heldBy, only]
  cases step with
  | takeIndex => exact took held
  | takeSlot => exact took held
  | takeCounted => exact took held
  | giveBack => exact gaveBack held
  | _ => exact held

/-- A call remembers what it has just done. -/
theorem recalls (step : CallStep call cache stage deed? next) (traced : Traced cache deeds)
    (recalls : Recalls place call deeds stage) :
    Recalls place call (deed?.toList.map (place, ·) ++ deeds) next := by
  cases step with
  | takeIndex => exact recalls.tookIndex
  | findSlot isKey => exact recalls.foundSlot isKey _
  | missSlot isGet absent => exact .leavingIndex .missed
  | clear isClear => exact .leavingIndex .done
  | list isCount => exact recalls.listedSlots isCount _
  | giveBack => exact recalls.gaveBack
  | takeSlot => exact recalls.tookSlot
  | answer isGet => exact recalls.answered traced
  | put isPut => exact (recalls.cons rfl).leavesSlot .done
  | reuse isLoad held => exact recalls.handedOut traced held rfl
  | startLoading isLoad => exact recalls.startedLoading isLoad
  | store isLoad => exact (recalls.cons rfl).ranLoader _
  | giveUp isLoad => exact recalls.ranLoader _
  | takeCounted => exact recalls.tookCounted
  | countFull held => exact recalls.countedFull traced held
  | passOver => exact recalls.passedOver
  | finishCount => exact recalls.finishedCount

end CallStep

end Steps

/-! ## The invariant of a machine and its chronicle -/

/-- The threads of a machine stand where their deeds have brought them. -/
structure Chronicled (machine : CacheMachine Key Value) (deeds : Chronicle Key Value) : Prop where
  traced : Traced machine.cache deeds
  recalls : ∀ {place thread}, machine.threads[place]? = some thread →
    Recalls place thread.call deeds thread.stage
  searchedOnce : ∀ place, (deeds.searches place).length ≤ 1
  heldBy_eq : ∀ place, deeds.heldBy place =
    (machine.threads[place]?.bind fun thread => thread.stage.holds?).toList
  /-- A thread that takes a lock holds none. -/
  unladen : ∀ {later earlier : Chronicle Key Value} {place : Nat} {lock : CacheLock},
    deeds = later ++ (place, .took lock) :: earlier → earlier.heldBy place = []
  exclusive : machine.Exclusive

namespace Chronicled

variable {machine next : CacheMachine Key Value} {deeds : Chronicle Key Value} {place : Nat}

theorem start (calls : List (CacheCall Key Value)) :
    Chronicled (CacheMachine.start .empty calls) [] where
  traced := .start
  recalls := by
    intro place thread here
    simp only [CacheMachine.start, List.getElem?_map, Option.map_eq_some_iff] at here
    rcases here with ⟨call, -, rfl⟩
    exact .outside (.called rfl)
  searchedOnce := fun _ => Nat.zero_le 1
  heldBy_eq := by
    intro place
    simp only [CacheMachine.start, List.getElem?_map]
    cases calls[place]? <;> rfl
  unladen := by simp
  exclusive := CacheMachine.exclusive_start .empty calls

theorem step_cases (chronicled : Chronicled machine deeds)
    (stepped : machine.step? place = some next) :
    ∃ call stage deed? after, machine.threads[place]? = some ⟨call, stage⟩ ∧
      CallStep call machine.cache stage deed? after ∧
      next.cache = deed?.elim machine.cache (Deed.effect machine.cache) ∧
      next.threads = machine.threads.set place ⟨call, after⟩ ∧
      machine.deedsAt place = deed?.toList.map (place, ·) := by
  rcases CacheMachine.step?_eq_some_iff.mp stepped with
    ⟨⟨call, stage⟩, cache, after, here, free, advanced, rfl⟩
  exact ⟨call, stage, _, after, here, callStep_of_advance (chronicled.recalls here) advanced,
    CacheThread.cache_eq_of_advance advanced, rfl, CacheMachine.deedsAt_of_canGo here free⟩

theorem searchedOnce_step {call : CacheCall Key Value} {stage after : Stage Value}
    {deed? : Option (Deed Key Value)} (chronicled : Chronicled machine deeds)
    (here : machine.threads[place]? = some ⟨call, stage⟩)
    (step : CallStep call machine.cache stage deed? after) (other : Nat) :
    (Chronicle.searches other (deed?.toList.map (place, ·) ++ deeds)).length ≤ 1 := by
  have before := chronicled.searchedOnce other
  cases deed? with
  | none => exact before
  | some deed =>
      simp only [Option.toList_some, List.map_cons, List.map_nil, List.singleton_append]
      by_cases same : other = place
      · subst same
        cases isSearch : deed.isSearch with
        | false =>
            rw [Chronicle.searches_cons_of_not_search isSearch]
            exact before
        | true =>
            rw [Chronicle.searches_cons_self isSearch,
              step.fresh_of_isSearch (chronicled.recalls here) isSearch]
            exact Nat.le_refl 1
      · rw [Chronicle.searches_cons_of_ne same]
        exact before

theorem unladen_step {call : CacheCall Key Value} {stage after : Stage Value}
    {deed? : Option (Deed Key Value)} (chronicled : Chronicled machine deeds)
    (here : machine.threads[place]? = some ⟨call, stage⟩)
    (step : CallStep call machine.cache stage deed? after) {later earlier : Chronicle Key Value}
    {taker : Nat} {lock : CacheLock}
    (split : deed?.toList.map (place, ·) ++ deeds = later ++ (taker, .took lock) :: earlier) :
    earlier.heldBy taker = [] := by
  cases deed? with
  | none => exact chronicled.unladen split
  | some deed =>
      rcases List.cons_eq_append_iff.mp split with ⟨rfl, isNow⟩ | ⟨rest, rfl, isRest⟩
      · cases isNow
        have held := chronicled.heldBy_eq place
        rw [here] at held
        simp only [Option.bind_some, step.holds?_of_took, Option.toList_none] at held
        exact held
      · exact chronicled.unladen isRest

theorem step (chronicled : Chronicled machine deeds)
    (stepped : machine.step? place = some next) :
    Chronicled next (machine.deedsAt place ++ deeds) := by
  have exclusive : next.Exclusive := CacheMachine.exclusive_step chronicled.exclusive stepped
  rcases chronicled.step_cases stepped with
    ⟨call, stage, deed?, after, here, step, cache_eq, threads_eq, deeds_eq⟩
  have recalls := chronicled.recalls here
  rw [deeds_eq]
  refine ⟨?_, ?_, chronicled.searchedOnce_step here step, ?_, chronicled.unladen_step here step,
    exclusive⟩
  · rw [cache_eq]
    cases deed? with
    | none => exact chronicled.traced
    | some deed => exact chronicled.traced.step (step.fits recalls)
  · intro other thread isThread
    rw [threads_eq] at isThread
    rcases CacheMachine.getElem?_threads_set isThread with ⟨rfl, rfl⟩ | ⟨different, wasThread⟩
    · exact step.recalls chronicled.traced recalls
    · apply (chronicled.recalls wasThread).mono
      · cases deed? with
        | none => rfl
        | some deed => exact Chronicle.searches_cons_of_ne different
      · exact List.subset_append_right _ _
  · intro other
    rw [threads_eq]
    have before := chronicled.heldBy_eq other
    by_cases same : other = place
    · subst same
      rw [here] at before
      rw [List.getElem?_set_self (List.getElem?_eq_some_iff.mp here).1]
      exact step.heldBy_step before
    · rw [List.getElem?_set_ne (Ne.symm same), ← before]
      cases deed? with
      | none => rfl
      | some deed => exact Chronicle.heldBy_cons_of_ne same

/-- Every run of calls on an empty cache has its chronicle. -/
theorem run (calls : List (CacheCall Key Value)) (schedule : List Nat) :
    Chronicled ((CacheMachine.start .empty calls).run schedule)
      ((CacheMachine.start .empty calls).chronicle schedule []) :=
  CacheMachine.chronicle_induction (fun now stepped => now.step stepped) (.start calls) schedule

end Chronicled

end FontCatalog
