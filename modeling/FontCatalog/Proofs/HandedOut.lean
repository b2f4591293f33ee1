import FontCatalog.Proofs.FollowedNames
import FontCatalog.Proofs.FontCalls

/-!
# Programs that were handed out

While files change and catalogs are made anew, a session hands out programs. Once a program was
handed out under a key, it is what every later call under this key gets, until the cache is cleared
or another program is put under the key. A call that comes to no program leaves the cache as it was,
so that the next one loads again.

What an action does to a single key is said in three steps: a program that is held stays, one that
is handed out is held afterwards, and one that is new was handed out. The rest is induction over
the actions of a session.
-/

namespace FontCatalog.Session

variable {session : Session} {key : FontKey} {held : Instance}

/-! ## One action and one key -/

/-- The action neither clears the cache nor puts a program under the key. -/
def Action.Spares (key : FontKey) : Action → Prop
  | .clear => False
  | .put other _ => other ≠ key
  | _ => True

/-- An action hands out a program under a key. -/
inductive HandsOut (session : Session) (key : FontKey) (held : Instance) : Action → Prop where
  | called {action : Action} {record : FontRecord} {outcome : Outcome Instance}
      (isCall : (record, some outcome) ∈ session.fontCalls action) (isKey : record.key = key)
      (given : outcome.value? = some held) : HandsOut session key held action
  | found (isHeld : session.cache.get? key = some held) : HandsOut session key held (.get key)
  | came {attempt : Attempt Instance}
      (given : (session.policy.getOrLoad session.cache key attempt).2.value? = some held) :
      HandsOut session key held (.getOrLoad key attempt)

theorem perform_changeFiles (session : Session) (changed : Except FileFault FileSystem) :
    (session.changeFiles changed).session.cache = session.cache ∧
      (session.changeFiles changed).session.policy = session.policy := by
  cases changed with
  | ok files => exact ⟨rfl, rfl⟩
  | error fault => exact ⟨rfl, rfl⟩

theorem policy_perform (holds : session.policy = .holdSlot) (action : Action) :
    (session.perform action).session.policy = .holdSlot := by
  cases action with
  | write _ _ | makeDirectories _ | remove _ => exact (session.perform_changeFiles _).2.trans holds
  | getFonts records schedule =>
      rw [perform_getFonts holds, getFonts_eq holds]
      exact holds
  | _ => exact holds

theorem policy_run (holds : session.policy = .holdSlot) (actions : List Action) :
    (session.run actions).policy = .holdSlot := by
  induction actions generalizing session with
  | nil => exact holds
  | cons action rest ih => exact ih (policy_perform holds action)

theorem get?_perform_of_get? (holds : session.policy = .holdSlot) {action : Action}
    (spares : action.Spares key) (isHeld : session.cache.get? key = some held) :
    (session.perform action).session.cache.get? key = some held := by
  cases action with
  | write _ _ | makeDirectories _ | remove _ =>
      rw [perform, (session.perform_changeFiles _).1]
      exact isHeld
  | getFont record => exact (session.settled_getFont record).keeps isHeld
  | getFonts records schedule =>
      rw [perform_getFonts holds]
      exact (settled_getFonts holds records schedule).keeps isHeld
  | put other program =>
      have different : key ≠ other := Ne.symm spares
      simp only [perform, Cache.get?_put, if_neg different]
      exact isHeld
  | getOrLoad other attempt =>
      simp only [perform, session.policy.get?_getOrLoad_eq]
      split
      · rename_i isKey
        rw [← isKey, isHeld]
        rfl
      · exact isHeld
  | clear => exact spares.elim
  | _ => exact isHeld

theorem settled_perform (holds : session.policy = .holdSlot) {action : Action}
    {call : FontRecord × Option (Outcome Instance)} (called : call ∈ session.fontCalls action) :
    Settled session.files session.cache (session.perform action).session.cache
      (session.fontCalls action) := by
  cases action with
  | getFont record => exact session.settled_getFont record
  | getFonts records schedule =>
      rw [perform_getFonts holds]
      exact settled_getFonts holds records schedule
  | _ => cases called

theorem HandsOut.get?_perform {action : Action} (holds : session.policy = .holdSlot)
    (handsOut : session.HandsOut key held action) :
    (session.perform action).session.cache.get? key = some held := by
  cases handsOut with
  | @called _ record outcome isCall isKey given =>
      subst isKey
      exact (settled_perform holds isCall).given isCall given
  | found isHeld => exact isHeld
  | @came attempt given =>
      rw [session.policy.snd_getOrLoad_eq, Attempt.value?_outcome] at given
      simp only [perform, session.policy.get?_getOrLoad_eq, if_pos]
      exact given

/-- What a key has come to hold was handed out. -/
theorem handsOut_of_get?_perform {action : Action} (holds : session.policy = .holdSlot)
    (spares : action.Spares key)
    (isHeld : (session.perform action).session.cache.get? key = some held) :
    session.cache.get? key = some held ∨ session.HandsOut key held action := by
  cases action with
  | write _ _ | makeDirectories _ | remove _ =>
      rw [perform, (session.perform_changeFiles _).1] at isHeld
      exact Or.inl isHeld
  | getFont record =>
      rcases (session.settled_getFont record).source isHeld with before | ⟨asked, called, isKey⟩
      · exact Or.inl before
      · exact Or.inr (.called called isKey rfl)
  | getFonts records schedule =>
      rw [perform_getFonts holds] at isHeld
      rcases (settled_getFonts holds records schedule).source isHeld with
        before | ⟨asked, called, isKey⟩
      · exact Or.inl before
      · exact Or.inr (.called called isKey rfl)
  | put other program =>
      have different : key ≠ other := Ne.symm spares
      simp only [perform, Cache.get?_put, if_neg different] at isHeld
      exact Or.inl isHeld
  | getOrLoad other attempt =>
      simp only [perform, session.policy.get?_getOrLoad_eq] at isHeld
      split at isHeld
      · rename_i isKey
        subst isKey
        right
        apply HandsOut.came
        rw [session.policy.snd_getOrLoad_eq, Attempt.value?_outcome]
        exact isHeld
      · exact Or.inl isHeld
  | clear => exact spares.elim
  | _ => exact Or.inl isHeld

theorem spares_of_mem_fontCalls {action : Action} {call : FontRecord × Option (Outcome Instance)}
    (called : call ∈ session.fontCalls action) (key : FontKey) : action.Spares key := by
  cases action with
  | clear => cases called
  | put other program => cases called
  | _ => exact trivial

/-! ## Actions one after another -/

theorem run_cons (session : Session) (action : Action) (later : List Action) :
    session.run (action :: later) = (session.perform action).session.run later := rfl

theorem get?_run_of_get? (holds : session.policy = .holdSlot) {later : List Action}
    (spares : ∀ step ∈ later, step.Spares key) (isHeld : session.cache.get? key = some held) :
    (session.run later).cache.get? key = some held := by
  induction later generalizing session with
  | nil => exact isHeld
  | cons action rest ih =>
      have spared := spares action List.mem_cons_self
      have kept := get?_perform_of_get? holds spared isHeld
      have others : ∀ step ∈ rest, step.Spares key := fun step isStep =>
        spares step (List.mem_cons_of_mem action isStep)
      exact ih (policy_perform holds action) others kept

/-- In the course of actions the key is spared, and no program is handed out under it. -/
def Withholds (key : FontKey) : Session → List Action → Prop
  | _, [] => True
  | session, action :: rest =>
      action.Spares key ∧ (∀ held, ¬session.HandsOut key held action) ∧
        Withholds key (session.perform action).session rest

theorem get?_run_eq_none (holds : session.policy = .holdSlot) {later : List Action}
    (withholds : session.Withholds key later) (absent : session.cache.get? key = none) :
    (session.run later).cache.get? key = none := by
  induction later generalizing session with
  | nil => exact absent
  | cons action rest ih =>
      rcases withholds with ⟨spares, nothing, withholds⟩
      apply ih (policy_perform holds action) withholds
      cases after : (session.perform action).session.cache.get? key with
      | none => rfl
      | some held =>
          rcases handsOut_of_get?_perform holds spares after with before | handsOut
          · rw [absent] at before
            cases before
          · exact absurd handsOut (nothing held)

/-- An action asks for a program under a key and hands out none. -/
def Misses (session : Session) (key : FontKey) (action : Action) : Prop :=
  (∃ call ∈ session.fontCalls action, call.1.key = key) ∧
    ∀ held, ¬session.HandsOut key held action

theorem get?_perform_of_misses (holds : session.policy = .holdSlot) {action : Action}
    (misses : session.Misses key action) :
    (session.perform action).session.cache.get? key = none := by
  rcases misses with ⟨⟨⟨record, ending⟩, called, isKey⟩, nothing⟩
  cases after : (session.perform action).session.cache.get? key with
  | none => rfl
  | some held =>
      rcases handsOut_of_get?_perform holds (spares_of_mem_fontCalls called key) after with
        before | handsOut
      · -- The call would have been answered with what was held before.
        have settled := settled_perform holds called
        rcases settled.outcome_cases called with ⟨outcome, rfl, ⟨-, absent⟩ | ⟨kept, rfl⟩⟩
        · rw [isKey, before] at absent
          cases absent
        · exact absurd (.called called isKey rfl) (nothing kept)
      · exact absurd handsOut (nothing held)

/-! ## Keys that hold a program -/

/-- Every call under the key, also in a batch, gets the program that is there, and neither loads nor
reports anything. -/
structure Serves (session : Session) (key : FontKey) (held : Instance) : Prop where
  outcome_eq : ∀ {action : Action} {record : FontRecord} {ending : Option (Outcome Instance)},
    (record, ending) ∈ session.fontCalls action → record.key = key → ending = some (.held held)
  single : ∀ {record : FontRecord}, record.key = key →
    (session.perform (.getFont record)).answer = .font (some held) ∧
      (session.perform (.getFont record)).events = []
  batch : ∀ {records : List FontRecord} {place : Nat} {record : FontRecord},
    records[place]? = some record → record.key = key → ∀ schedule, ∃ answers,
      (session.perform (.getFonts records schedule)).answer = .fonts answers ∧
        answers[place]? = some (some held)
  /-- The events of a batch are those of the calls under other keys. -/
  events_eq : ∀ records schedule, (session.perform (.getFonts records schedule)).events =
    ((session.fontCalls (.getFonts records schedule)).filter fun call => call.1.key ≠ key).flatMap
      (callEvents session.files)

theorem flatMap_filter_of_silent {calls : List (FontRecord × Option (Outcome Instance))}
    {files : FileSystem} {speaks : FontRecord × Option (Outcome Instance) → Bool}
    (silent : ∀ call ∈ calls, speaks call = false → callEvents files call = []) :
    (calls.filter speaks).flatMap (callEvents files) = calls.flatMap (callEvents files) := by
  induction calls with
  | nil => rfl
  | cons call rest ih =>
      have others := ih fun other isOther => silent other (List.mem_cons_of_mem call isOther)
      rw [List.filter_cons]
      split
      · rw [List.flatMap_cons, List.flatMap_cons, others]
      · rename_i isSilent
        rw [List.flatMap_cons, silent call List.mem_cons_self (by simpa using isSilent), others]
        rfl

theorem mem_fontCalls_getFont (session : Session) (record : FontRecord) :
    (record, some (session.getFont record).2) ∈ session.fontCalls (.getFont record) :=
  List.mem_singleton.mpr rfl

theorem mem_fontCalls_getFonts (holds : session.policy = .holdSlot) {records : List FontRecord}
    {place : Nat} {record : FontRecord} (here : records[place]? = some record)
    (schedule : List Nat) :
    ∃ ending, (session.fontCalls (.getFonts records schedule))[place]? = some (record, ending) := by
  have inside : place < (session.getFonts records schedule).2.length := by
    rw [length_getFonts holds]
    exact (List.getElem?_eq_some_iff.mp here).1
  exact ⟨_, List.getElem?_zip_eq_some.mpr ⟨here, List.getElem?_eq_getElem inside⟩⟩

theorem serves_of_get? (holds : session.policy = .holdSlot)
    (isHeld : session.cache.get? key = some held) : session.Serves key held := by
  have outcome_eq {action : Action} {record : FontRecord} {ending : Option (Outcome Instance)}
      (called : (record, ending) ∈ session.fontCalls action) (isKey : record.key = key) :
      ending = some (.held held) := by
    subst isKey
    have settled := settled_perform holds called
    rcases settled.outcome_cases called with ⟨outcome, rfl, ⟨-, absent⟩ | ⟨other, rfl⟩⟩
    · rw [isHeld] at absent
      cases absent
    · have given := settled.given called rfl
      rw [settled.keeps isHeld] at given
      cases given
      rfl
  refine ⟨outcome_eq, ?_, ?_, ?_⟩
  · intro record isKey
    have isOutcome := outcome_eq (mem_fontCalls_getFont session record) isKey
    rw [perform_getFont, Option.some.inj isOutcome]
    exact ⟨rfl, rfl⟩
  · intro records place record here isKey schedule
    rcases mem_fontCalls_getFonts holds here schedule with ⟨ending, called⟩
    have isOutcome := outcome_eq (List.mem_of_getElem? called) isKey
    subst isOutcome
    rw [perform_getFonts holds]
    exact ⟨_, rfl, by rw [List.getElem?_map, called]; rfl⟩
  · intro records schedule
    rw [perform_getFonts holds]
    apply Eq.symm
    apply flatMap_filter_of_silent
    rintro ⟨record, ending⟩ called isKey
    rw [outcome_eq called (by simpa using isKey)]
    rfl

/-! ## Keys that hold no program -/

/-- Every call under the key loads its record, or gets what another call of its batch has loaded
meanwhile. -/
structure Retries (session : Session) (key : FontKey) : Prop where
  single : ∀ {record : FontRecord}, record.key = key →
    (session.getFont record).2 = .ran (attempt record session.files session.nextNumber) ∧
      (session.perform (.getFont record)).answer =
        .font ((record.load session.files).result.toOption.map (Instance.mk session.nextNumber))
  batch : ∀ {records : List FontRecord} {schedule : List Nat} {record : FontRecord}
      {ending : Option (Outcome Instance)},
    (record, ending) ∈ session.fontCalls (.getFonts records schedule) → record.key = key →
      ∃ outcome, ending = some outcome ∧
        ((∃ number, outcome = .ran (attempt record session.files number)) ∨
          ∃ other held, (other, some (.ran (.loaded held))) ∈
              session.fontCalls (.getFonts records schedule) ∧
            other.key = key ∧ outcome = .held held)

theorem retries_of_get? (holds : session.policy = .holdSlot)
    (absent : session.cache.get? key = none) : session.Retries key := by
  refine ⟨?_, ?_⟩
  · intro record isKey
    have outcome_eq : (session.getFont record).2 =
        .ran (attempt record session.files session.nextNumber) := by
      refine (session.snd_getFont record).trans ?_
      rw [isKey, absent]
      rfl
    refine ⟨outcome_eq, ?_⟩
    rw [perform_getFont, outcome_eq, ← value?_attempt]
    rfl
  · intro records schedule record ending called isKey
    subst isKey
    have settled := settled_perform holds called
    rcases settled.outcome_cases called with ⟨outcome, rfl, ⟨ran, -⟩ | ⟨held, rfl⟩⟩
    · exact ⟨outcome, rfl, Or.inl ran⟩
    · refine ⟨_, rfl, Or.inr ?_⟩
      rcases settled.source (settled.given called rfl) with before | ⟨other, loaded, isKey⟩
      · rw [absent] at before
        cases before
      · exact ⟨other, held, loaded, isKey, rfl⟩

/-- Calls that come to no program leave their keys as they were. -/
theorem Settled.get?_eq {files : FileSystem} {before after : FontCache}
    {calls : List (FontRecord × Option (Outcome Instance))}
    (settled : Settled files before after calls)
    (nothing : ∀ call ∈ calls, call.1.key = key → call.2.bind Outcome.value? = none) :
    after.get? key = before.get? key := by
  cases isBefore : before.get? key with
  | some held => exact settled.keeps isBefore
  | none =>
      cases isAfter : after.get? key with
      | none => rfl
      | some held =>
          rcases settled.source isAfter with wasHeld | ⟨record, called, isKey⟩
          · rw [isBefore] at wasHeld
            cases wasHeld
          · cases nothing _ called isKey

/-- A call whose record can be loaded comes to a program. -/
theorem Settled.exists_value {files : FileSystem} {before after : FontCache}
    {calls : List (FontRecord × Option (Outcome Instance))}
    (settled : Settled files before after calls) {record : FontRecord}
    {ending : Option (Outcome Instance)} {program : FontProgram}
    (called : (record, ending) ∈ calls) (loads : (record.load files).result = .ok program) :
    ∃ held, ending.bind Outcome.value? = some held := by
  rcases settled.outcome_cases called with ⟨outcome, rfl, ⟨⟨number, rfl⟩, -⟩ | ⟨held, rfl⟩⟩
  · refine ⟨⟨number, program⟩, ?_⟩
    rw [Option.bind_some, Outcome.value?, value?_attempt, loads]
    rfl
  · exact ⟨held, rfl⟩

/-! ## Main statement -/

/-- What a session promises to those who ask it for programs: about its next action, and about all
actions that may follow. -/
structure KeepsPrograms (session : Session) : Prop where
  /-- A program that was handed out is what all later calls under its key get. -/
  kept : ∀ {action : Action} {key : FontKey} {held : Instance} {later : List Action},
    session.HandsOut key held action → (∀ step ∈ later, step.Spares key) →
      ((session.perform action).session.run later).Serves key held
  /-- A call that comes to no program reports one error and leaves the cache as it was. -/
  missed : ∀ {record : FontRecord},
    (session.perform (.getFont record)).answer = .font none →
      (session.perform (.getFont record)).events.countP Event.isError = 1 ∧
        (session.perform (.getFont record)).session.cache.size = session.cache.size ∧
        ∀ key, (session.perform (.getFont record)).session.cache.get? key = session.cache.get? key
  /-- Every call of a batch returns, and an error is reported for each that comes to no program. -/
  reported : ∀ records schedule, ∃ answers,
    (session.perform (.getFonts records schedule)).answer = .fonts answers ∧
      answers.length = records.length ∧
      (session.perform (.getFonts records schedule)).events.countP Event.isError =
        answers.countP Option.isNone
  /-- No action changes what a key holds but one that hands out what the key then holds. -/
  sourced : ∀ {action : Action} {key : FontKey}, action.Spares key →
    (session.perform action).session.cache.get? key = session.cache.get? key ∨
      ∃ held, session.HandsOut key held action ∧
        (session.perform action).session.cache.get? key = some held
  /-- After calls under a key that came to no program, the next ones load again. -/
  retried : ∀ {action : Action} {key : FontKey} {later : List Action},
    session.Misses key action → (session.perform action).session.Withholds key later →
      ((session.perform action).session.run later).Retries key
  /-- A call comes to a program whenever its record can be loaded. -/
  succeeds : ∀ {record : FontRecord} {program : FontProgram},
    (record.load session.files).result = .ok program →
      (∃ held, (session.perform (.getFont record)).answer = .font (some held)) ∧
        ∀ {records : List FontRecord} {place : Nat}, records[place]? = some record →
          ∀ schedule, ∃ answers held,
            (session.perform (.getFonts records schedule)).answer = .fonts answers ∧
              answers[place]? = some (some held)

theorem missed_getFont {record : FontRecord}
    (missed : (session.perform (.getFont record)).answer = .font none) :
    (session.perform (.getFont record)).events.countP Event.isError = 1 ∧
      (session.perform (.getFont record)).session.cache.size = session.cache.size ∧
      ∀ key, (session.perform (.getFont record)).session.cache.get? key =
        session.cache.get? key := by
  have settled := session.settled_getFont record
  rw [perform_getFont] at missed ⊢
  injection missed with nothing
  have same (key : FontKey) :
      (session.getFont record).1.cache.get? key = session.cache.get? key := by
    apply settled.get?_eq
    intro call called _
    cases List.mem_singleton.mp called
    exact nothing
  refine ⟨?_, Cache.size_eq_of_get?_eq same, same⟩
  rw [countP_isError_callEvents settled (session.mem_fontCalls_getFont record), Option.bind_some,
    nothing]
  rfl

/-- Programs that were handed out stay, and calls that came to none leave no trace. -/
theorem keepsPrograms (session : Session) (holds : session.policy = .holdSlot) :
    session.KeepsPrograms where
  kept := by
    intro action key held later handsOut spares
    have holdsNext := policy_perform holds action
    have inCache := get?_run_of_get? holdsNext spares (handsOut.get?_perform holds)
    exact serves_of_get? (policy_run holdsNext later) inCache
  missed := missed_getFont
  reported := by
    intro records schedule
    rw [perform_getFonts holds]
    refine ⟨_, rfl, ?_, ?_⟩
    · rw [List.length_map, fontCalls, List.length_zip, length_getFonts holds, Nat.min_self]
    · apply countP_isError_flatMap
      intro call called
      exact countP_isError_callEvents (settled_getFonts holds records schedule) called
  sourced := by
    intro action key spares
    cases after : (session.perform action).session.cache.get? key with
    | none =>
        left
        cases before : session.cache.get? key with
        | none => rfl
        | some held =>
            rw [get?_perform_of_get? holds spares before] at after
            cases after
    | some held =>
        rcases handsOut_of_get?_perform holds spares after with before | handsOut
        · exact Or.inl before.symm
        · exact Or.inr ⟨held, handsOut, rfl⟩
  retried := by
    intro action key later misses withholds
    have holdsNext := policy_perform holds action
    have absent := get?_run_eq_none holdsNext withholds (get?_perform_of_misses holds misses)
    exact retries_of_get? (policy_run holdsNext later) absent
  succeeds := by
    intro record program loads
    refine ⟨?_, ?_⟩
    · rcases (session.settled_getFont record).exists_value
        (session.mem_fontCalls_getFont record) loads with
        ⟨held, given⟩
      exact ⟨held, congrArg Answer.font given⟩
    · intro records place here schedule
      rcases mem_fontCalls_getFonts holds here schedule with ⟨ending, called⟩
      rcases (settled_getFonts holds records schedule).exists_value (List.mem_of_getElem? called)
        loads with ⟨held, given⟩
      rw [perform_getFonts holds]
      exact ⟨_, held, rfl, by rw [List.getElem?_map, called]; exact congrArg some given⟩

/-! ## A font that vanishes

A font is loaded and its file removed; a record of the same key, from a catalog that tells nothing
else of the font, still gets the program. A font that was never there is loaded again. -/

namespace Specimen

/-- A font without any table. -/
def font : Bytes :=
  [0, 1, 0, 0, 0, 0, 0, 0, 0, 0, 0, 0]

/-- The directory `d` with the font in the file `a`. -/
def folder : FileSystem :=
  ((FileSystem.withDirectory [0x77]).put [[0x77], [0x64]] .directory).put
    [[0x77], [0x64], [0x61]] (.file font)

/-- A record of that font. -/
def present : FontRecord where
  file := Path.ofString "d//a"
  format := .trueType
  postscriptName := "A"
  cidSystemInfo := none
  weightClass := 400
  familyClass := 0
  codePageRange1 := 1
  codePageRange2 := 0
  macStyle := 0
  panose := none

/-- A record of the same key that differs in all the rest. -/
def respelled : FontRecord :=
  { present with file := Path.ofString "d/./a", weightClass := -1, codePageRange1 := 0 }

/-- A record of a font whose file is not there. -/
def absent : FontRecord :=
  { present with file := Path.ofString "d/b" }

/-- A session that has done nothing yet. -/
def initial : Session :=
  start folder .holdSlot

/-- The session in which the absent font has been asked for. -/
def disappointed : Session :=
  (initial.perform (.getFont absent)).session

/-- What the font is loaded as. -/
def program : FontProgram :=
  .trueType ⟨font, none, "A"⟩

/-- The file is removed, and a new catalog is empty. -/
def vanishing : List Action :=
  [.remove present.file, .catalogFiles [present.file]]

/-- The session in which the font was loaded before it vanished. -/
def bereft : Session :=
  (disappointed.perform (.getFont present)).session.run vanishing

theorem read_present : folder.read present.file = .ok font := by
  have leads : FileSystem.LeadsAlong present.file [[0x64], [0x61]] := by decide +kernel
  apply FileSystem.read_eq_ok_of_follow leads
  rw [FileSystem.follow_directory (by decide) rfl]
  exact FileSystem.follow_file (by decide) rfl

theorem read_absent : folder.read absent.file = .error .notFound := by
  have leads : FileSystem.LeadsAlong absent.file [[0x64], [0x62]] := by decide +kernel
  apply FileSystem.read_eq_error_of_follow leads
  rw [FileSystem.follow_directory (by decide) rfl]
  exact FileSystem.follow_free (by decide) rfl

theorem load_present : (present.load disappointed.files).result = .ok program := by
  have kind : present.format = .trueType := rfl
  have data : disappointed.files.read present.file = .ok font := read_present
  simp only [FontRecord.load, kind, Loading.trueType, Loading.readFontFile, data]
  rfl

theorem answer_absent : (initial.perform (.getFont absent)).answer = .font none := by
  have kind : absent.format = .trueType := rfl
  have missing : initial.files.read absent.file = .error .notFound := read_absent
  simp only [perform_getFont, getFont, attempt, FontRecord.load, kind, Loading.trueType,
    Loading.readFontFile, missing]
  rfl

theorem answer_present :
    (disappointed.perform (.getFont present)).answer = .font (some ⟨1, program⟩) := by
  have retries : disappointed.Retries present.key :=
    retries_of_get? rfl ((missed_getFont answer_absent).2.2 present.key)
  rw [(retries.single rfl).2, load_present]
  rfl

theorem handsOut_present :
    disappointed.HandsOut present.key ⟨1, program⟩ (.getFont present) := by
  have given := answer_present
  rw [perform_getFont] at given
  injection given with given
  exact .called (mem_fontCalls_getFont disappointed present) rfl given

theorem misses_absent : initial.Misses absent.key (.getFont absent) := by
  refine ⟨⟨_, mem_fontCalls_getFont initial absent, rfl⟩, ?_⟩
  intro held handsOut
  cases handsOut with
  | called isCall isKey given =>
      have nothing := answer_absent
      rw [perform_getFont] at nothing
      injection nothing with nothing
      cases List.mem_singleton.mp isCall
      rw [nothing] at given
      cases given

theorem withholds_absent :
    disappointed.Withholds absent.key (.getFont present :: vanishing) := by
  refine ⟨trivial, ?_, ⟨trivial, ?_, ⟨trivial, ?_, trivial⟩⟩⟩
  · intro held handsOut
    cases handsOut with
    | called isCall isKey given =>
        cases List.mem_singleton.mp isCall
        exact absurd isKey (by decide)
  · intro held handsOut
    cases handsOut with
    | called isCall => cases isCall
  · intro held handsOut
    cases handsOut with
    | called isCall => cases isCall

end Specimen

theorem keepsPrograms_specimen :
    Specimen.initial.policy = .holdSlot ∧
      (Specimen.initial.perform (.getFont Specimen.absent)).answer = .font none ∧
      (Specimen.initial.perform (.getFont Specimen.absent)).events.countP Event.isError = 1 ∧
      (Specimen.disappointed.perform (.getFont Specimen.present)).answer =
        .font (some ⟨1, Specimen.program⟩) ∧
      Specimen.respelled.key = Specimen.present.key ∧
      (Specimen.bereft.perform (.getFont Specimen.respelled)).answer =
        .font (some ⟨1, Specimen.program⟩) ∧
      (Specimen.bereft.perform (.getFont Specimen.respelled)).events = [] ∧
      Specimen.bereft.Retries Specimen.absent.key := by
  have promise := keepsPrograms Specimen.initial rfl
  have later := keepsPrograms Specimen.disappointed rfl
  have sameKey : Specimen.respelled.key = Specimen.present.key := by decide
  have spares : ∀ step ∈ Specimen.vanishing, step.Spares Specimen.present.key := by
    simp [Specimen.vanishing, Action.Spares]
  have serves := later.kept Specimen.handsOut_present spares
  exact ⟨rfl, Specimen.answer_absent, (promise.missed Specimen.answer_absent).1,
    Specimen.answer_present, sameKey, (serves.single sameKey).1, (serves.single sameKey).2,
    promise.retried Specimen.misses_absent Specimen.withholds_absent⟩

end FontCatalog.Session
