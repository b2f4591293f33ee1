import FontCatalog.Proofs.HandedOut
import FontCatalog.Proofs.Origins

/-!
# The identity of kept programs

A program stands in the cache under a key, which is a format, a PostScript name and a place. Loading
a record gives a program of its format, and sfnt programs take over its name. A Type 1 font brings
along the name that it has in its file by then, and nothing compares it with that of the record, so
that a file which was replaced after a scan may come to stand under the name of its predecessor.
-/

namespace FontCatalog

theorem map_eq_ok_iff {ε α β : Type} {result : Except ε α} {change : α → β} {value : β} :
    result.map change = .ok value ↔ ∃ first, result = .ok first ∧ change first = value := by
  cases result with
  | ok first => simp [Except.map]
  | error fault => simp [Except.map]

theorem SfntProgram.postscriptName_of_make {data : Bytes} {member? : Option Nat} {name : String}
    {program : SfntProgram} (made : make data member? name = .ok program) :
    program.postscriptName = name := by
  rcases map_eq_ok_iff.mp made with ⟨font, -, rfl⟩
  rfl

namespace Loading

variable {files : FileSystem} {file : Path} {name : String} {program : FontProgram}

theorem trueType_eq_ok (loads : (trueType files file name).result = .ok program) :
    ∃ sfnt, program = .trueType sfnt ∧ sfnt.postscriptName = name := by
  have ofMade {data : Bytes} {member? : Option Nat}
      (made : (SfntProgram.make data member? name).map FontProgram.trueType = .ok program) :
      ∃ sfnt, program = .trueType sfnt ∧ sfnt.postscriptName = name := by
    rcases map_eq_ok_iff.mp made with ⟨sfnt, isMade, rfl⟩
    exact ⟨sfnt, rfl, SfntProgram.postscriptName_of_make isMade⟩
  unfold trueType at loads
  split at loads
  · cases loads
  · exact ofMade loads
  · rename_i data collection _
    dsimp only at loads
    cases found : (collection.find file name).1 with
    | none =>
        rw [found] at loads
        cases loads
    | some index =>
        rw [found] at loads
        exact ofMade loads

theorem openType_eq_ok (loads : (openType files file name).result = .ok program) :
    ∃ sfnt, program = .openType sfnt ∧ sfnt.postscriptName = name := by
  unfold openType at loads
  split at loads
  · cases loads
  · rcases map_eq_ok_iff.mp loads with ⟨sfnt, isMade, rfl⟩
    exact ⟨sfnt, rfl, SfntProgram.postscriptName_of_make isMade⟩
  · cases loads

theorem type1_eq_ok (loads : (type1 files file).result = .ok program) :
    ∃ font, program = .type1 font ∧ Type1.Font.load files file = .ok font := by
  rcases map_eq_ok_iff.mp loads with ⟨font, isFont, rfl⟩
  exact ⟨font, rfl, isFont⟩

end Loading

namespace Session

/-- The action gives nothing to the cache but what comes of loading records. -/
def Action.OnlyLoads : Action → Prop
  | .put _ _ => False
  | .getOrLoad _ _ => False
  | _ => True

/-- A program has the format and the name that a key gives it, but for the name of a Type 1 font,
which is the one in its file at some time in the course of the actions. -/
structure Identified (session : Session) (actions : List Action) (key : FontKey)
    (program : FontProgram) : Prop where
  format_eq : program.format = key.format
  name_eq : key.format ≠ .type1 → program.postscriptName = key.postscriptName
  /-- The name is that of the key if the file was still the one from which a record with this key
  was made. -/
  ofType1 : key.format = .type1 → ∃ earlier file data font, earlier <+: actions ∧
    file.components = key.file ∧ (session.run earlier).files.read file = .ok data ∧
    Type1.Font.ofBytes data = .ok font ∧ program = .type1 font ∧
    ∀ {scanned : FileSystem} {record : FontRecord}, scanned.read file = .ok data →
      record ∈ (Extraction.ofFile scanned file).records → record.key = key →
      program.postscriptName = key.postscriptName

/-- All programs that the session keeps, or hands out next, are identified by their keys. -/
structure IdentifiesPrograms (session : Session) (actions : List Action) : Prop where
  kept : ∀ {key held}, (session.run actions).cache.get? key = some held →
    session.Identified actions key held.program
  single : ∀ {record : FontRecord} {held : Instance},
    ((session.run actions).perform (.getFont record)).answer = .font (some held) →
      session.Identified actions record.key held.program
  batch : ∀ {records : List FontRecord} {schedule : List Nat} {answers : List (Option Instance)}
      {place : Nat} {record : FontRecord} {held : Instance},
    ((session.run actions).perform (.getFonts records schedule)).answer = .fonts answers →
      records[place]? = some record → answers[place]? = some (some held) →
      session.Identified actions record.key held.program

section Runs

variable {session : Session} {key : FontKey} {held : Instance} {actions : List Action}

/-- A record that is loaded gives a program that its key identifies. -/
theorem identified_of_load {record : FontRecord} {program : FontProgram} {earlier : List Action}
    (isEarlier : earlier <+: actions)
    (loads : (record.load (session.run earlier).files).result = .ok program) :
    session.Identified actions record.key program := by
  unfold FontRecord.load at loads
  split at loads
  · rename_i isType1
    rcases Loading.type1_eq_ok loads with ⟨font, rfl, loaded⟩
    rcases Type1.Font.load_eq_ok_iff.mp loaded with ⟨data, isData, parsed⟩
    refine ⟨isType1.symm, fun differs => absurd isType1 differs, fun _ => ?_⟩
    refine ⟨earlier, record.file, data, font, isEarlier, rfl, isData, parsed, rfl, ?_⟩
    intro scanned other sameData extracted sameKey
    have sameFormat : other.format = .type1 := (congrArg FontKey.format sameKey).trans isType1
    cases Extraction.origin_of_mem_records extracted with
    | simple _ _ _ described => exact absurd sameFormat described.format_ne_type1
    | collection _ _ _ _ described => exact absurd sameFormat described.format_ne_type1
    | type1 _ scannedData scannedFont named =>
        cases sameData.symm.trans scannedData
        cases parsed.symm.trans scannedFont
        rw [named] at sameKey
        exact congrArg FontKey.postscriptName sameKey
  · rename_i isTrueType
    rcases Loading.trueType_eq_ok loads with ⟨sfnt, rfl, name_eq⟩
    refine ⟨isTrueType.symm, fun _ => name_eq, ?_⟩
    intro isType1
    cases isTrueType.symm.trans isType1
  · rename_i isOpenType
    rcases Loading.openType_eq_ok loads with ⟨sfnt, rfl, name_eq⟩
    refine ⟨isOpenType.symm, fun _ => name_eq, ?_⟩
    intro isType1
    cases isOpenType.symm.trans isType1

theorem load_of_called (holds : session.policy = .holdSlot) {action : Action}
    {record : FontRecord}
    (called : (record, some (.ran (.loaded held))) ∈ session.fontCalls action) :
    (record.load session.files).result = .ok held.program := by
  rcases (settled_perform holds called).outcome_cases called with
    ⟨outcome, isOutcome, ⟨⟨number, rfl⟩, -⟩ | ⟨other, rfl⟩⟩
  · injection isOutcome with isOutcome
    injection isOutcome with isAttempt
    have value := congrArg Attempt.value? isAttempt
    rw [value?_attempt] at value
    cases loads : (record.load session.files).result with
    | ok program =>
        rw [loads] at value
        cases value
        rfl
    | error failure =>
        rw [loads] at value
        cases value
  · cases isOutcome

/-- What a key has come to hold was loaded for a record with this key. -/
theorem exists_load_of_get?_perform (holds : session.policy = .holdSlot) {action : Action}
    (onlyLoads : action.OnlyLoads)
    (isHeld : (session.perform action).session.cache.get? key = some held) :
    session.cache.get? key = some held ∨
      ∃ record : FontRecord, record.key = key ∧
        (record.load session.files).result = .ok held.program := by
  have ofSource {action : Action} (isSource : session.cache.get? key = some held ∨
      ∃ record, (record, some (.ran (.loaded held))) ∈ session.fontCalls action ∧
        record.key = key) :
      session.cache.get? key = some held ∨
        ∃ record : FontRecord, record.key = key ∧
          (record.load session.files).result = .ok held.program := by
    apply isSource.imp_right
    rintro ⟨record, called, isKey⟩
    exact ⟨record, isKey, load_of_called holds called⟩
  cases action with
  | write _ _ | makeDirectories _ | remove _ =>
      rw [perform, (session.perform_changeFiles _).1] at isHeld
      exact Or.inl isHeld
  | getFont record => exact ofSource ((session.settled_getFont record).source isHeld)
  | getFonts records schedule =>
      rw [perform_getFonts holds] at isHeld
      exact ofSource ((settled_getFonts holds records schedule).source isHeld)
  | put other program => exact onlyLoads.elim
  | getOrLoad other attempt => exact onlyLoads.elim
  | clear => cases isHeld
  | _ => exact Or.inl isHeld

theorem Identified.extend {program : FontProgram}
    (identified : session.Identified actions key program) (action : Action) :
    session.Identified (actions ++ [action]) key program where
  format_eq := identified.format_eq
  name_eq := identified.name_eq
  ofType1 := by
    intro isType1
    rcases identified.ofType1 isType1 with ⟨earlier, file, data, font, isEarlier, rest⟩
    exact ⟨earlier, file, data, font, isEarlier.trans (List.prefix_append _ _), rest⟩

theorem run_concat (session : Session) (actions : List Action) (action : Action) :
    session.run (actions ++ [action]) = ((session.run actions).perform action).session := by
  simp [run]

theorem identified_of_get?_run (files : FileSystem)
    (onlyLoads : ∀ action ∈ actions, action.OnlyLoads)
    (isHeld : ((start files .holdSlot).run actions).cache.get? key = some held) :
    (start files .holdSlot).Identified actions key held.program := by
  induction actions using List.reverseRecOn with
  | nil => cases isHeld
  | append_singleton actions action ih =>
      have holds : ((start files .holdSlot).run actions).policy = .holdSlot :=
        policy_run rfl actions
      rw [run_concat] at isHeld
      rcases exists_load_of_get?_perform holds (onlyLoads action (by simp)) isHeld with
        before | ⟨record, rfl, loads⟩
      · have earlier := ih (fun other inside => onlyLoads other (by simp [inside])) before
        exact earlier.extend action
      · exact identified_of_load (List.prefix_append _ _) loads

theorem identified_of_called (files : FileSystem)
    (onlyLoads : ∀ action ∈ actions, action.OnlyLoads) {action : Action} {record : FontRecord}
    {outcome : Outcome Instance}
    (called : (record, some outcome) ∈ ((start files .holdSlot).run actions).fontCalls action)
    (given : outcome.value? = some held) :
    (start files .holdSlot).Identified actions record.key held.program := by
  have holds : ((start files .holdSlot).run actions).policy = .holdSlot := policy_run rfl actions
  have settled := settled_perform holds called
  rcases settled.source (settled.given called given) with before | ⟨loader, loaded, sameKey⟩
  · exact identified_of_get?_run files onlyLoads before
  · rw [← sameKey]
    exact identified_of_load List.prefix_rfl (load_of_called holds loaded)

/-- Whatever becomes of the files, programs have the formats of their keys, and sfnt programs their
names; a Type 1 font has the name that its file gave it when it was loaded. -/
theorem identifiesPrograms_run (files : FileSystem) (actions : List Action)
    (onlyLoads : ∀ action ∈ actions, action.OnlyLoads) :
    (start files .holdSlot).IdentifiesPrograms actions where
  kept := identified_of_get?_run files onlyLoads
  single := by
    intro record held answered
    rw [perform_getFont] at answered
    injection answered with given
    exact identified_of_called files onlyLoads (mem_fontCalls_getFont _ record) given
  batch := by
    intro records schedule answers place record held answered here isAnswer
    have holds : ((start files .holdSlot).run actions).policy = .holdSlot := policy_run rfl actions
    rcases mem_fontCalls_getFonts holds here schedule with ⟨ending, called⟩
    rw [perform_getFonts holds] at answered
    injection answered with isAnswers
    rw [← isAnswers, List.getElem?_map, called, Option.map_some, Option.some.injEq] at isAnswer
    cases ending with
    | none => cases isAnswer
    | some outcome =>
        exact identified_of_called files onlyLoads (List.mem_of_getElem? called) isAnswer

end Runs

/-! ## A font that is replaced

A file with the font `A` is scanned, and the font `B` is written in its place before the record of
`A` is asked for. -/

namespace Replaced

/-- A clear segment with a font program of the name, and the end of the file. -/
def pfb (name : String) : Bytes :=
  let text := "%!FontType1-1.0: " ++ name ++ "\n/FontName /" ++ name ++ " def\n"
  let bytes := Text.Utf8.encode text.toList
  [0x80, 1, UInt8.ofNat bytes.length, 0, 0, 0] ++ bytes ++ [0x80, 3]

/-- The only font file. -/
def file : Path :=
  Path.ofString "a.pfb"

/-- A directory with the font `A` in that file. -/
def folder : FileSystem :=
  (FileSystem.withDirectory [0x77]).put [[0x77], file.spelling] (.file (pfb "A"))

/-- What a catalog knows about the font `A`. -/
def record : FontRecord :=
  .ofType1 file "A"

/-- The file is scanned, and then another font is put in its place. -/
def actions : List Action :=
  [.catalogFiles [file], .write file (pfb "B")]

/-- The program of the font `B`. -/
def held : Instance :=
  ⟨0, .type1 ⟨"B", none, none, none, ((pfb "B").drop 6).take 36, []⟩⟩

/-- The font of the name, as it is read from those bytes. -/
def font (name : String) : Type1.Font :=
  ⟨name, none, none, none, ((pfb name).drop 6).take 36, []⟩

/-- The files after the font was replaced. -/
def replaced : FileSystem :=
  folder.put (folder.placeOf file) (.file (pfb "B"))

theorem load_folder : Type1.Font.load folder file = .ok (font "A") := by
  have isData : folder.read file = .ok (pfb "A") :=
    FileSystem.IsSingleName.read_eq_ok (by decide) rfl
  exact Type1.Font.load_eq_ok_iff.mpr ⟨_, isData, by decide +kernel⟩

theorem load_replaced : Type1.Font.load replaced file = .ok (font "B") := by
  have isData : replaced.read file = .ok (pfb "B") :=
    FileSystem.IsSingleName.read_eq_ok (by decide) rfl
  exact Type1.Font.load_eq_ok_iff.mpr ⟨_, isData, by decide +kernel⟩

theorem records_eq :
    ((start folder .holdSlot).run [.catalogFiles [file]]).catalog.records = [record] := by
  have kind : file.classify = .type1 := by decide +kernel
  have isRecords : ((start folder .holdSlot).run [.catalogFiles [file]]).catalog.records =
      (Extraction.ofFile folder file).records ++ [] := rfl
  simp only [isRecords, Extraction.ofFile, kind, Extraction.type1, load_folder]
  rfl

theorem run_actions : (start folder .holdSlot).run actions =
    { (start folder .holdSlot).run [.catalogFiles [file]] with files := replaced } := by
  have wrote : folder.write file (pfb "B") = .ok replaced :=
    FileSystem.IsSingleName.write_eq_ok (by decide) _ rfl
  change (Session.changeFiles _ (folder.write file (pfb "B"))).session = _
  rw [wrote]
  rfl

theorem answer_eq :
    (((start folder .holdSlot).run actions).perform (.getFont record)).answer =
      .font (some held) := by
  have kind : record.format = .type1 := rfl
  have isFont : Type1.Font.load replaced record.file = .ok (font "B") := load_replaced
  simp only [run_actions, perform_getFont, getFont, attempt, FontRecord.load, kind,
    Loading.type1, isFont]
  rfl

theorem get?_eq :
    (((start folder .holdSlot).run actions).perform (.getFont record)).session.cache.get?
      record.key = some held := by
  have given := answer_eq
  rw [perform_getFont] at given
  injection given with given
  have holds : ((start folder .holdSlot).run actions).policy = .holdSlot := policy_run rfl actions
  exact (HandsOut.called (mem_fontCalls_getFont _ record) rfl given).get?_perform holds

theorem onlyLoads : ∀ action ∈ actions, action.OnlyLoads := by
  simp [actions, Action.OnlyLoads]

end Replaced

open Replaced in
/-- The program of a font comes to stand, and is handed out, under the name of the font that was
there before. -/
theorem postscriptName_ne_of_replaced :
    (∀ action ∈ actions, action.OnlyLoads) ∧
      record ∈ ((start folder .holdSlot).run (actions.take 1)).catalog.records ∧
      (((start folder .holdSlot).run actions).perform (.getFont record)).answer =
        .font (some held) ∧
      (((start folder .holdSlot).run actions).perform (.getFont record)).session.cache.get?
        record.key = some held ∧
      held.program.postscriptName ≠ record.postscriptName := by
  refine ⟨onlyLoads, ?_, answer_eq, get?_eq, by decide⟩
  have records := records_eq
  rw [actions, List.take_succ_cons, List.take_zero, records]
  exact List.mem_singleton_self record

open Replaced in
theorem identifiesPrograms_replaced :
    (∀ action ∈ actions, action.OnlyLoads) ∧
      (start folder .holdSlot).IdentifiesPrograms actions ∧
      (((start folder .holdSlot).run actions).perform (.getFont record)).answer =
        .font (some held) ∧
      held.program.format = record.format := by
  have identifies := identifiesPrograms_run folder actions onlyLoads
  exact ⟨onlyLoads, identifies, answer_eq, (identifies.single answer_eq).format_eq⟩

end Session

end FontCatalog
