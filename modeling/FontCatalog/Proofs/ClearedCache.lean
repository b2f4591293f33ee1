import FontCatalog.Proofs.CacheChronicle

/-!
# Clearing for good

A call that found its slot before the cache was cleared finishes its work on a slot that no later
call can find. Whatever the order of steps, what can be reached through the index was stored by
calls that searched it since the latest clearing, and the calls that search it after a clearing see
and count only what such calls have stored. Programs are values here; two that are equal are told
apart by the calls that stored them.
-/

namespace FontCatalog

variable {Key Value : Type}

/-- All that was ever stored in a slot was stored by calls that searched the index in the later
deeds, and not in the earlier ones. -/
def Chronicle.FilledLater (deeds after before : Chronicle Key Value) (slot : Nat) : Prop :=
  ∀ {storer value}, (storer, .stored slot value) ∈ deeds →
    (∃ key, (storer, .found key slot) ∈ after) ∧ before.searches storer = []

/-- How a call comes to its end while its loader runs, by the number of steps it has left. -/
inductive Finishing (attempt : Attempt Value) (slot : Nat) : Nat → Stage Value → Prop where
  | loading : Finishing attempt slot 2 (.loading slot)
  | leaving : Finishing attempt slot 1 (.leaving (.slot slot) (.returned (.came (.ran attempt))))
  | returned : Finishing attempt slot 0 (.outside (.returned (.came (.ran attempt))))

variable [DecidableEq Key]

/-- No clearing of a cache is undone by calls that were under way. -/
structure ClearsForGood (machine : CacheMachine Key Value) (deeds : Chronicle Key Value) :
    Prop where
  /-- What a key holds was stored last in its slot, by a call that found the slot for the key since
  the latest clearing. -/
  reachable : ∀ {key value}, machine.cache.get? key = some value →
    ∃ slot storer later earlier, machine.cache.slot? key = some slot ∧
      deeds = later ++ (storer, .stored slot value) :: earlier ∧
      (∀ other newer, (other, .stored slot newer) ∉ later) ∧
      (storer, .found key slot) ∈ earlier ∧ (storer, .found key slot) ∈ deeds.recent
  /-- A call that had not searched the index before a clearing is given nothing that an earlier
  call has stored. -/
  unseen : ∀ {after before : Chronicle Key Value} {clearer place : Nat}
      {thread : CacheThread Key Value} {reply : CacheReply Value} {value : Value},
    deeds = after ++ (clearer, .cleared) :: before → before.searches place = [] →
      machine.threads[place]? = some thread → thread.stage.settled? = some reply →
      reply.held? = some value →
      ∃ key slot, thread.call.key? = some key ∧ (place, .found key slot) ∈ after ∧
        (∃ storer, (storer, .stored slot value) ∈ deeds) ∧ deeds.FilledLater after before slot
  /-- It counts some of the slots that it has listed, and nothing that an earlier call has
  stored. -/
  uncounted : ∀ {after before : Chronicle Key Value} {clearer place count : Nat}
      {thread : CacheThread Key Value},
    deeds = after ++ (clearer, .cleared) :: before → before.searches place = [] →
      machine.threads[place]? = some thread → thread.stage.settled? = some (.counted count) →
      ∃ slots full : List Nat,
        (place, .listed slots) ∈ after ∧ full.Sublist slots ∧ count = full.length ∧
          ∀ slot ∈ full, deeds.IsFilled slot ∧ deeds.FilledLater after before slot
  /-- A call whose loader runs returns what it comes up with, whatever the others do. -/
  returns : ∀ {place slot : Nat} {key : Key} {attempt : Attempt Value},
    machine.threads[place]? = some ⟨.getOrLoad key attempt, .loading slot⟩ →
      ∀ rest : List Nat, ∃ stage,
        (machine.run rest).threads[place]? = some ⟨.getOrLoad key attempt, stage⟩ ∧
          Finishing attempt slot (2 - rest.count place) stage

/-! ## Loaders that run on -/

namespace Finishing

variable {machine next : CacheMachine Key Value} {place mover slot left : Nat} {key : Key}
  {attempt : Attempt Value} {stage : Stage Value}

/-- A call whose loader runs waits for no lock. -/
theorem step (finishing : Finishing attempt slot (left + 1) stage)
    (here : machine.threads[place]? = some ⟨.getOrLoad key attempt, stage⟩) :
    ∃ next after, machine.step? place = some next ∧
      next.threads[place]? = some ⟨.getOrLoad key attempt, after⟩ ∧
      Finishing attempt slot left after := by
  have inside := (List.getElem?_eq_some_iff.mp here).1
  cases finishing with
  | loading =>
      cases attempt <;>
        exact ⟨_, _, CacheMachine.step?_eq_some_iff.mpr ⟨_, _, _, here, rfl, rfl, rfl⟩,
          List.getElem?_set_self inside, .leaving⟩
  | leaving =>
      exact ⟨_, _, CacheMachine.step?_eq_some_iff.mpr ⟨_, _, _, here, rfl, rfl, rfl⟩,
        List.getElem?_set_self inside, .returned⟩

theorem run (finishing : Finishing attempt slot left stage)
    (here : machine.threads[place]? = some ⟨.getOrLoad key attempt, stage⟩) (rest : List Nat) :
    ∃ after, (machine.run rest).threads[place]? = some ⟨.getOrLoad key attempt, after⟩ ∧
      Finishing attempt slot (left - rest.count place) after := by
  induction rest generalizing machine left stage with
  | nil => exact ⟨stage, here, finishing⟩
  | cons mover rest ih =>
      rw [CacheMachine.run_cons]
      by_cases same : mover = place
      · subst same
        rw [List.count_cons_self]
        cases left with
        | zero =>
            cases finishing with
            | returned =>
                have stuck : machine.step? mover = none := by
                  simp [CacheMachine.step?, here, CacheThread.advance]
                rw [stuck, Nat.zero_sub]
                simpa using ih .returned here
        | succ left =>
            rcases finishing.step here with ⟨next, after, stepped, isAfter, finishingAfter⟩
            rw [stepped, Nat.add_sub_add_right]
            exact ih finishingAfter isAfter
      · rw [List.count_cons_of_ne same]
        cases stepped : machine.step? mover with
        | none => exact ih finishing here
        | some next =>
            rcases CacheMachine.step?_eq_some_iff.mp stepped with
              ⟨thread, cache, moved, -, -, -, rfl⟩
            apply ih finishing
            rw [Option.getD_some, List.getElem?_set_ne same]
            exact here

end Finishing

/-! ## Calls before and after a clearing -/

namespace Chronicled

variable {machine : CacheMachine Key Value} {deeds after before : Chronicle Key Value}
  {clearer place slot : Nat} {key : Key} {value : Value} {deed : Deed Key Value}

/-- A call that has searched the index after a clearing has not searched it before. -/
theorem searches_before_eq_nil (chronicled : Chronicled machine deeds)
    (split : deeds = after ++ (clearer, .cleared) :: before) (late : (place, deed) ∈ after)
    (isSearch : deed.isSearch = true) : before.searches place = [] := by
  have once := chronicled.searchedOnce place
  have searched := List.length_pos_of_mem (Chronicle.mem_searches.mpr ⟨late, isSearch⟩)
  have fewer : (before.searches place).length ≤
      (Chronicle.searches place ((clearer, .cleared) :: before)).length := by
    by_cases same : place = clearer
    · subst same
      rw [Chronicle.searches_cons_self rfl]
      exact Nat.le_succ _
    · have unchanged : Chronicle.searches place ((clearer, .cleared) :: before) =
          before.searches place := Chronicle.searches_cons_of_ne same
      exact Nat.le_of_eq (congrArg List.length unchanged.symm)
  rw [split, Chronicle.searches_append, List.length_append] at once
  apply List.eq_nil_of_length_eq_zero
  omega

omit [DecidableEq Key] in
theorem mem_after_of_searches_before (split : deeds = after ++ (clearer, .cleared) :: before)
    (done : (place, deed) ∈ deeds) (isSearch : deed.isSearch = true) (differs : deed ≠ .cleared)
    (notBefore : before.searches place = []) : (place, deed) ∈ after := by
  subst split
  rcases List.mem_append.mp done with late | early
  · exact late
  · rcases List.mem_cons.mp early with isClearing | before
    · exact absurd (Prod.mk.inj isClearing).2 differs
    · have searched := Chronicle.mem_searches.mpr ⟨before, isSearch⟩
      rw [notBefore] at searched
      cases searched

theorem exists_found_of_stored (chronicled : Chronicled machine deeds)
    (stored : (place, .stored slot value) ∈ deeds) : ∃ key, (place, .found key slot) ∈ deeds := by
  rcases List.append_of_mem stored with ⟨later, earlier, split⟩
  rcases chronicled.traced.sourced split with ⟨key, found⟩
  exact ⟨key, by simp [split, found]⟩

/-- A slot that nobody found before a clearing is filled by later calls only. -/
theorem filledLater (chronicled : Chronicled machine deeds)
    (split : deeds = after ++ (clearer, .cleared) :: before)
    (unfound : ∀ finder key, (finder, .found key slot) ∉ before) :
    deeds.FilledLater after before slot := by
  intro storer value stored
  rcases chronicled.exists_found_of_stored stored with ⟨key, found⟩
  have late : (storer, .found key slot) ∈ after := by
    rw [split] at found
    rcases List.mem_append.mp found with late | early
    · exact late
    · rcases List.mem_cons.mp early with isClearing | isBefore
      · cases isClearing
      · exact absurd isBefore (unfound storer key)
  exact ⟨⟨key, late⟩, chronicled.searches_before_eq_nil split late rfl⟩

theorem reachable (chronicled : Chronicled machine deeds)
    (held : machine.cache.get? key = some value) :
    ∃ slot storer later earlier, machine.cache.slot? key = some slot ∧
      deeds = later ++ (storer, .stored slot value) :: earlier ∧
      (∀ other newer, (other, .stored slot newer) ∉ later) ∧
      (storer, .found key slot) ∈ earlier ∧ (storer, .found key slot) ∈ deeds.recent := by
  rcases Option.bind_eq_some_iff.mp held with ⟨slot, attached, content⟩
  rw [chronicled.traced.content_eq] at content
  rcases Chronicle.exists_split_of_stored? content with ⟨later, storer, earlier, split, isLast⟩
  rcases chronicled.traced.sourced split with ⟨finderKey, found⟩
  have done : (storer, .found finderKey slot) ∈ deeds := by simp [split, found]
  cases chronicled.traced.key_eq done attached
  refine ⟨slot, storer, later, earlier, attached, split, isLast, found, ?_⟩
  -- An attached slot was not found before the latest clearing.
  rw [← List.takeWhile_append_dropWhile (l := deeds)] at done
  rcases List.mem_append.mp done with recent | outdated
  · exact recent
  · exact absurd attached (chronicled.traced.detached outdated)

theorem unseen {thread : CacheThread Key Value} {reply : CacheReply Value}
    (chronicled : Chronicled machine deeds)
    (split : deeds = after ++ (clearer, .cleared) :: before)
    (notBefore : before.searches place = []) (here : machine.threads[place]? = some thread)
    (settled : thread.stage.settled? = some reply) (isHeld : reply.held? = some value) :
    ∃ key slot, thread.call.key? = some key ∧ (place, .found key slot) ∈ after ∧
      (∃ storer, (storer, .stored slot value) ∈ deeds) ∧ deeds.FilledLater after before slot := by
  rcases (chronicled.recalls here).exists_found settled isHeld with
    ⟨key, slot, storer, isKey, found, stored⟩
  have late := mem_after_of_searches_before split found rfl (by simp) notBefore
  refine ⟨key, slot, isKey, late, ⟨storer, stored⟩, chronicled.filledLater split ?_⟩
  intro finder earlyKey early
  exact (chronicled.traced.oneEra split early).1 place key late

theorem uncounted {thread : CacheThread Key Value} {count : Nat}
    (chronicled : Chronicled machine deeds)
    (split : deeds = after ++ (clearer, .cleared) :: before)
    (notBefore : before.searches place = []) (here : machine.threads[place]? = some thread)
    (settled : thread.stage.settled? = some (.counted count)) :
    ∃ slots full : List Nat,
      (place, .listed slots) ∈ after ∧ full.Sublist slots ∧ count = full.length ∧
        ∀ slot ∈ full, deeds.IsFilled slot ∧ deeds.FilledLater after before slot := by
  rcases (chronicled.recalls here).exists_listed settled with
    ⟨slots, full, listed, part, isCount, isFull⟩
  have late := mem_after_of_searches_before split listed rfl (by simp) notBefore
  refine ⟨slots, full, late, part, isCount, ?_⟩
  intro slot counted
  refine ⟨isFull slot counted, chronicled.filledLater split ?_⟩
  intro finder earlyKey early
  exact (chronicled.traced.oneEra split early).2 place slots late (part.subset counted)

theorem clearsForGood (chronicled : Chronicled machine deeds) : ClearsForGood machine deeds where
  reachable := chronicled.reachable
  unseen := chronicled.unseen
  uncounted := chronicled.uncounted
  returns := by
    intro place slot key attempt loading rest
    exact Finishing.loading.run loading rest

end Chronicled

namespace CacheMachine

/-- Whatever calls are made on a cache, and in whatever order their steps are taken, clearing it is
final for the calls that are under way. -/
theorem clearsForGood_run (calls : List (CacheCall Key Value)) (schedule : List Nat) :
    ClearsForGood ((start .empty calls).run schedule)
      ((start .empty calls).chronicle schedule []) :=
  (Chronicled.run calls schedule).clearsForGood

/-- A cache that is cleared while a loader runs: its call returns what it has loaded, and neither a
call that looks up the key nor one that counts sees it. -/
example :
    ((start .empty [.getOrLoad "SourceHan" (.loaded 1), .clear, .get "SourceHan", .count,
        .getOrLoad "SourceHan" (.loaded 2)]).run
      [0, 0, 0, 0, 0, 1, 1, 1, 0, 0, 2, 2, 2, 3, 3, 3, 3, 4, 4, 4, 4, 4, 4, 4]).replies =
      [some (.came (.ran (.loaded 1))), some .done, some (.found none), some (.counted 0),
        some (.came (.ran (.loaded 2)))] := by
  decide

end CacheMachine

end FontCatalog
