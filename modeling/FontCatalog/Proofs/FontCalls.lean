import FontCatalog.Proofs.CacheAsMap
import FontCatalog.Proofs.CacheReplies

/-!
# Calls for programs

A session answers calls for programs that come one by one, or at the same time from threads that
share the slots of its cache. Either way every call comes to an end: with a program that the cache
held or with what loading comes to, and then one error is reported if it comes to nothing.
`Settled` says this of all calls that an action makes, together with what becomes of the cache.
-/

namespace FontCatalog

/-- The event is logged as an error. -/
def Event.isError (event : Event) : Bool :=
  event.level = .error

/-! ## Errors of loading -/

theorem countP_isError_findNamed (file : Path) (postscriptName : String) (start : Nat)
    (members : List (Except Sfnt.ReadFault Sfnt.Font)) :
    (findNamed file postscriptName start members).2.countP Event.isError = 0 := by
  induction members generalizing start with
  | nil => rfl
  | cons member rest ih =>
      cases member with
      | error fault =>
          rw [findNamed, List.countP_cons, ih]
          rfl
      | ok font =>
          rw [findNamed]
          split
          · rfl
          · exact ih (start + 1)

/-- Loading itself reports no errors, but returns them. -/
theorem countP_isError_load (record : FontRecord) (files : FileSystem) :
    (record.load files).events.countP Event.isError = 0 := by
  unfold FontRecord.load
  split
  · rfl
  · unfold Loading.trueType
    split
    · rfl
    · rfl
    · exact countP_isError_findNamed _ _ _ _
  · unfold Loading.openType
    split <;> rfl

namespace Session

variable {session : Session} {key : FontKey} {held : Instance}

/-- A loading gives the cache what it comes to. -/
theorem value?_attempt (record : FontRecord) (files : FileSystem) (number : Nat) :
    (attempt record files number).value? =
      (record.load files).result.toOption.map (Instance.mk number) := by
  unfold attempt
  split
  · rename_i program loaded
    rw [loaded]
    rfl
  · rename_i failure failed
    rw [failed]
    rfl

/-- A loading that comes to no program reports one error. -/
theorem countP_isError_loadingEvents (record : FontRecord) (files : FileSystem) (number : Nat) :
    (loadingEvents record files).countP Event.isError =
      if (attempt record files number).value?.isNone then 1 else 0 := by
  have quiet := countP_isError_load record files
  rw [value?_attempt]
  unfold loadingEvents
  dsimp only
  split
  · rename_i program loaded
    rw [loaded, List.countP_append, quiet]
    rfl
  · rename_i failure failed
    rw [failed, List.countP_append, quiet]
    rfl

/-! ## Calls for programs -/

/-- The calls for programs that an action makes: the record of each and how it came to its end. -/
def fontCalls (session : Session) : Action → List (FontRecord × Option (Outcome Instance))
  | .getFont record => [(record, some (session.getFont record).2)]
  | .getFonts records schedule => records.zip (session.getFonts records schedule).2
  | _ => []

/-- What a call for a program reports. -/
def callEvents (files : FileSystem) (call : FontRecord × Option (Outcome Instance)) : List Event :=
  (call.2.map (eventsOf call.1 files)).getD []

/-- Calls for programs, accounted for by what the cache held before them and holds afterwards. -/
structure Settled (files : FileSystem) (before after : FontCache)
    (calls : List (FontRecord × Option (Outcome Instance))) : Prop where
  /-- Every call has come to an end: its record was loaded where nothing was held, or a program was
  held. -/
  outcome_cases : ∀ {record : FontRecord} {outcome? : Option (Outcome Instance)},
    (record, outcome?) ∈ calls → ∃ outcome, outcome? = some outcome ∧
      ((∃ number, outcome = .ran (attempt record files number)) ∧
          before.get? record.key = none ∨
        ∃ held, outcome = .held held)
  given : ∀ {record : FontRecord} {outcome : Outcome Instance} {held : Instance},
    (record, some outcome) ∈ calls → outcome.value? = some held →
      after.get? record.key = some held
  keeps : ∀ {key : FontKey} {held : Instance},
    before.get? key = some held → after.get? key = some held
  source : ∀ {key : FontKey} {held : Instance}, after.get? key = some held →
    before.get? key = some held ∨
      ∃ record, (record, some (.ran (.loaded held))) ∈ calls ∧ record.key = key

/-- A call comes to what its own loading comes to, unless a program is held already. -/
theorem snd_getFont (session : Session) (record : FontRecord) :
    (session.getFont record).2 = (attempt record session.files session.nextNumber).outcome
      (session.cache.get? record.key) :=
  session.policy.snd_getOrLoad_eq session.cache record.key _

theorem get?_getFont (session : Session) (record : FontRecord) (key : FontKey) :
    (session.getFont record).1.cache.get? key =
      if key = record.key then (session.cache.get? record.key).or
        (attempt record session.files session.nextNumber).value? else session.cache.get? key :=
  session.policy.get?_getOrLoad_eq session.cache record.key key _

/-- A program that is held after a call was held before it, or is what the call has loaded. -/
theorem get?_or_ran_getFont {session : Session} {record : FontRecord} {key : FontKey}
    {held : Instance} (after : (session.getFont record).1.cache.get? key = some held) :
    session.cache.get? key = some held ∨
      (session.getFont record).2 = .ran (.loaded held) ∧ record.key = key := by
  rw [get?_getFont] at after
  split at after
  · rename_i isKey
    subst isKey
    rw [snd_getFont]
    cases before : session.cache.get? record.key with
    | some kept =>
        rw [before] at after
        exact Or.inl after
    | none =>
        rw [before] at after
        right
        cases tried : attempt record session.files session.nextNumber with
        | loaded value =>
            rw [tried] at after
            cases after
            exact ⟨rfl, rfl⟩
        | failed => rw [tried] at after; cases after
        | panicked => rw [tried] at after; cases after
  · exact Or.inl after

theorem settled_getFont (session : Session) (record : FontRecord) :
    Settled session.files session.cache (session.getFont record).1.cache
      (session.fontCalls (.getFont record)) := by
  refine ⟨?_, ?_, ?_, ?_⟩
  · intro asked outcome? called
    cases List.mem_singleton.mp called
    refine ⟨_, rfl, ?_⟩
    rw [snd_getFont]
    cases before : session.cache.get? record.key with
    | none => exact Or.inl ⟨⟨session.nextNumber, rfl⟩, rfl⟩
    | some held => exact Or.inr ⟨held, rfl⟩
  · intro asked outcome held called given
    cases List.mem_singleton.mp called
    rw [snd_getFont, Attempt.value?_outcome] at given
    rw [get?_getFont, if_pos rfl]
    exact given
  · intro key held before
    rw [get?_getFont]
    split
    · rename_i isKey
      rw [isKey] at before
      rw [before]
      rfl
    · exact before
  · intro key held after
    rcases get?_or_ran_getFont after with before | ⟨isOutcome, isKey⟩
    · exact Or.inl before
    · right
      refine ⟨record, ?_, isKey⟩
      rw [fontCalls, isOutcome]
      exact List.mem_singleton.mpr rfl

/-! ## Calls at the same time -/

/-- The threads that ask for programs at the same time, after all their steps. -/
def batch (session : Session) (records : List FontRecord) (schedule : List Nat) :
    CacheMachine FontKey Instance :=
  (CacheMachine.start session.cache (session.calls records)).run
    (schedule ++ CacheMachine.turns records.length)

theorem getFonts_eq (holds : session.policy = .holdSlot) (records : List FontRecord)
    (schedule : List Nat) :
    session.getFonts records schedule =
      ({ session with
          cache := (session.batch records schedule).cache
          nextNumber := session.nextNumber + records.length },
        (session.batch records schedule).replies.map outcome?) := by
  unfold getFonts
  split
  · rfl
  · rename_i other
    rw [holds] at other
    cases other

theorem getElem?_calls (session : Session) (records : List FontRecord) (place : Nat) :
    (session.calls records)[place]? = records[place]?.map fun record =>
      .getOrLoad record.key (attempt record session.files (session.nextNumber + place)) := by
  simp [calls, List.getElem?_mapIdx]

theorem orderly_calls (session : Session) (records : List FontRecord) :
    (CacheMachine.start session.cache (session.calls records)).Orderly := by
  apply CacheMachine.orderly_start
  intro call isCall
  rcases List.mem_iff_getElem?.mp isCall with ⟨place, here⟩
  rw [getElem?_calls, Option.map_eq_some_iff] at here
  rcases here with ⟨record, -, rfl⟩
  rfl

theorem orderly_batch (session : Session) (records : List FontRecord) (schedule : List Nat) :
    (session.batch records schedule).Orderly :=
  (session.orderly_calls records).run _

theorem accountsFor_batch (session : Session) (records : List FontRecord) (schedule : List Nat) :
    (session.batch records schedule).AccountsFor session.cache :=
  (CacheMachine.accountsFor_start session.cache (session.calls records)).run
    (session.orderly_calls records) _

theorem calls_batch (session : Session) (records : List FontRecord) (schedule : List Nat) :
    (session.batch records schedule).threads.map (·.call) = session.calls records := by
  rw [batch, (session.orderly_calls records).calls_run]
  simp [CacheMachine.start, CacheThread.start, Function.comp_def]

theorem finished_batch (session : Session) (records : List FontRecord) (schedule : List Nat) :
    (session.batch records schedule).Finished := by
  have orderly := session.orderly_calls records
  have threads : ((CacheMachine.start session.cache (session.calls records)).run
      schedule).threads.length = records.length := by
    rw [orderly.length_run]
    simp [CacheMachine.start, calls]
  rw [batch, CacheMachine.run_append, ← threads]
  exact (orderly.run schedule).finished_turns

theorem length_batch (session : Session) (records : List FontRecord) (schedule : List Nat) :
    (session.batch records schedule).threads.length = records.length := by
  have lengths := congrArg List.length (session.calls_batch records schedule)
  simpa [calls] using lengths

/-- The thread at a place makes the call for the record at that place. -/
theorem getElem?_batch_iff {records : List FontRecord} {schedule : List Nat} {place : Nat}
    {call : CacheCall FontKey Instance} :
    (∃ stage, (session.batch records schedule).threads[place]? = some ⟨call, stage⟩) ↔
      ∃ record, records[place]? = some record ∧
        call = .getOrLoad record.key
          (attempt record session.files (session.nextNumber + place)) := by
  have calls := congrArg (·[place]?) (session.calls_batch records schedule)
  simp only [List.getElem?_map, getElem?_calls] at calls
  constructor
  · rintro ⟨stage, here⟩
    rw [here, Option.map_some] at calls
    rcases Option.map_eq_some_iff.mp calls.symm with ⟨record, isRecord, isCall⟩
    exact ⟨record, isRecord, isCall.symm⟩
  · rintro ⟨record, isRecord, rfl⟩
    rw [isRecord, Option.map_some] at calls
    rcases Option.map_eq_some_iff.mp calls with ⟨⟨call, stage⟩, here, rfl⟩
    exact ⟨stage, here⟩

theorem mem_fontCalls_getFonts_iff (holds : session.policy = .holdSlot)
    {records : List FontRecord} {schedule : List Nat} {record : FontRecord}
    {ending : Option (Outcome Instance)} :
    (record, ending) ∈ session.fontCalls (.getFonts records schedule) ↔
      ∃ (place : Nat) (thread : CacheThread FontKey Instance), records[place]? = some record ∧
        (session.batch records schedule).threads[place]? = some thread ∧
        outcome? thread.stage.reply? = ending := by
  simp only [fontCalls, getFonts_eq holds, CacheMachine.replies, List.mem_iff_getElem?,
    List.getElem?_zip_eq_some, List.getElem?_map, Option.map_eq_some_iff]
  constructor
  · rintro ⟨place, isRecord, _, ⟨thread, here, rfl⟩, isEnding⟩
    exact ⟨place, thread, isRecord, here, isEnding⟩
  · rintro ⟨place, thread, isRecord, here, isEnding⟩
    exact ⟨place, isRecord, _, ⟨thread, here, rfl⟩, isEnding⟩

theorem settled_getFonts (holds : session.policy = .holdSlot) (records : List FontRecord)
    (schedule : List Nat) :
    Settled session.files session.cache (session.getFonts records schedule).1.cache
      (session.fontCalls (.getFonts records schedule)) := by
  have orderly := session.orderly_batch records schedule
  have accounts := session.accountsFor_batch records schedule
  have finished := session.finished_batch records schedule
  -- Every call of the batch has come to an end that its thread accounts for.
  have ends {record : FontRecord} {ending : Option (Outcome Instance)}
      (called : (record, ending) ∈ session.fontCalls (.getFonts records schedule)) :
      ∃ number outcome, ending = some outcome ∧
        (outcome = .ran (attempt record session.files number) ∧
            session.cache.get? record.key = none ∨
          ∃ value, outcome = .held value) ∧
        ∀ value, outcome.value? = some value →
          (session.batch records schedule).cache.get? record.key = some value := by
    rcases (mem_fontCalls_getFonts_iff holds).mp called with
      ⟨place, thread, isRecord, here, rfl⟩
    rcases getElem?_batch_iff.mpr ⟨record, isRecord, rfl⟩ with ⟨stage, isThread⟩
    cases here.symm.trans isThread
    rcases accounts.outcome_cases orderly finished here rfl with ⟨outcome, replied, cases, held⟩
    exact ⟨_, outcome, by rw [replied]; rfl, cases, held⟩
  rw [getFonts_eq holds]
  refine ⟨?_, ?_, fun before => accounts.grows.get?_eq before, ?_⟩
  · intro record ending called
    rcases ends called with ⟨number, outcome, isOutcome, ⟨ran, absent⟩ | isHeld, -⟩
    · exact ⟨outcome, isOutcome, Or.inl ⟨⟨number, ran⟩, absent⟩⟩
    · exact ⟨outcome, isOutcome, Or.inr isHeld⟩
  · intro record outcome held called given
    rcases ends called with ⟨number, ended, isOutcome, -, inCache⟩
    cases isOutcome
    exact inCache held given
  · intro key held after
    rcases accounts.source after with before | ⟨place, stage, here, settled⟩
    · exact Or.inl before
    · right
      rcases getElem?_batch_iff.mp ⟨stage, here⟩ with ⟨record, isRecord, isCall⟩
      rcases finished _ (List.mem_of_getElem? here) with ⟨reply, returned⟩
      injection isCall with isKey
      subst isKey returned
      cases settled
      exact ⟨record, (mem_fontCalls_getFonts_iff holds).mpr ⟨place, _, isRecord, here, rfl⟩, rfl⟩

/-! ## Events of calls -/

theorem countP_isError_callEvents {files : FileSystem} {before after : FontCache}
    {calls : List (FontRecord × Option (Outcome Instance))}
    (settled : Settled files before after calls) {call : FontRecord × Option (Outcome Instance)}
    (called : call ∈ calls) :
    (callEvents files call).countP Event.isError =
      if (call.2.bind Outcome.value?).isNone then 1 else 0 := by
  rcases call with ⟨record, ending⟩
  rcases settled.outcome_cases called with ⟨outcome, rfl, ⟨⟨number, rfl⟩, -⟩ | ⟨held, rfl⟩⟩
  · exact countP_isError_loadingEvents record files number
  · rfl

/-- Calls report as many errors as there are calls that come to no program. -/
theorem countP_isError_flatMap {files : FileSystem}
    {calls : List (FontRecord × Option (Outcome Instance))}
    (counts : ∀ call ∈ calls, (callEvents files call).countP Event.isError =
      if (call.2.bind Outcome.value?).isNone then 1 else 0) :
    (calls.flatMap (callEvents files)).countP Event.isError =
      (calls.map fun call => call.2.bind Outcome.value?).countP Option.isNone := by
  induction calls with
  | nil => rfl
  | cons call rest ih =>
      rw [List.flatMap_cons, List.countP_append, counts call List.mem_cons_self,
        ih fun other isOther => counts other (List.mem_cons_of_mem call isOther), List.map_cons,
        List.countP_cons, Nat.add_comm]

theorem perform_getFont (session : Session) (record : FontRecord) :
    session.perform (.getFont record) =
      ⟨(session.getFont record).1, .font (session.getFont record).2.value?,
        callEvents session.files (record, some (session.getFont record).2)⟩ := rfl

theorem length_getFonts (holds : session.policy = .holdSlot) (records : List FontRecord)
    (schedule : List Nat) : (session.getFonts records schedule).2.length = records.length := by
  rw [getFonts_eq holds, List.length_map, CacheMachine.replies, List.length_map, length_batch]

theorem perform_getFonts (holds : session.policy = .holdSlot) (records : List FontRecord)
    (schedule : List Nat) :
    session.perform (.getFonts records schedule) =
      ⟨(session.getFonts records schedule).1,
        .fonts ((session.fontCalls (.getFonts records schedule)).map fun call =>
          call.2.bind Outcome.value?),
        (session.fontCalls (.getFonts records schedule)).flatMap (callEvents session.files)⟩ := by
  have endings : (session.fontCalls (.getFonts records schedule)).map Prod.snd =
      (session.getFonts records schedule).2 :=
    List.map_snd_zip (Nat.le_of_eq (length_getFonts holds records schedule))
  have answers : (session.fontCalls (.getFonts records schedule)).map (fun call =>
      call.2.bind Outcome.value?) =
      (session.getFonts records schedule).2.map fun ending => ending.bind Outcome.value? := by
    rw [← endings, List.map_map]
    rfl
  rw [answers]
  rfl

end Session

end FontCatalog
