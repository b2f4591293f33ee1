import FontCatalog.Proofs.Origins
import Mathlib.Data.List.Forall2

/-!
# What a font contributes

A font contributes a record and the event that announces it, or no record and the event that says
why it is left out. A file contributes what its fonts contribute, one after another, so its
announcements and its records stand in the same order. What a member of a collection contributes
does not depend on its place; only the wording of a failure does.
-/

namespace FontCatalog

/-- The event announces the record of a font, by format and name. -/
inductive Event.Announces : Event → FontRecord → Prop
  | sfnt (record : FontRecord) (family subfamily : Option String) :
      Announces (.described record.format record.postscriptName family subfamily) record
  | type1 (file : Path) (name : String) (family weight : Option String) :
      Announces (.describedType1 name family weight) (.ofType1 file name)

theorem Event.Announces.level_eq {event : Event} {record : FontRecord}
    (announces : event.Announces record) : event.level = .trace := by
  cases announces with
  | sfnt => rfl
  | type1 => rfl

namespace Extraction

variable {extraction : Extraction} {extractions : List Extraction} {files : FileSystem}
  {file : Path}

/-! ## One font -/

/-- What a single font may contribute. -/
inductive OfFont : Extraction → Prop
  | described {record : FontRecord} {event : Event} (announces : event.Announces record) :
      OfFont ⟨[record], [event]⟩
  | leftOut {event : Event} (reported : event.level ≠ .trace) : OfFont ⟨[], [event]⟩

/-- The announcements among the events stand in the order of the records. -/
def Announced (extraction : Extraction) : Prop :=
  List.Forall₂ Event.Announces (extraction.events.filter (·.level = .trace)) extraction.records

theorem OfFont.exists_event (ofFont : extraction.OfFont) :
    ∃ event, extraction.events = [event] ∧ (event.level = .trace ↔ extraction.records ≠ []) := by
  cases ofFont with
  | described announces => exact ⟨_, rfl, by simp [announces.level_eq]⟩
  | leftOut reported => exact ⟨_, rfl, by simp [reported]⟩

theorem OfFont.announced (ofFont : extraction.OfFont) : extraction.Announced := by
  cases ofFont with
  | described announces => simp [Announced, announces.level_eq, announces]
  | leftOut reported => simp [Announced, reported]

theorem Announced.length_records (announced : extraction.Announced) :
    extraction.records.length = extraction.events.countP (·.level = .trace) := by
  rw [List.countP_eq_length_filter]
  exact announced.length_eq.symm

theorem ofFont_ofExamination (file : Path) (examination : Examination) :
    (ofExamination file examination).OfFont := by
  cases examination with
  | described record family subfamily => exact .described (.sfnt record family subfamily)
  | withoutNamingTable => exact .leftOut (by simp [Examination.event, Event.level])
  | withoutPostscriptName => exact .leftOut (by simp [Examination.event, Event.level])
  | withoutHead name => exact .leftOut (by simp [Examination.event, Event.level])

theorem ofFont_ofMember (file : Path) (index : Nat)
    (member : Except Sfnt.ReadFault Sfnt.Font) : (ofMember file index member).OfFont := by
  simp only [ofMember]
  split
  · apply ofFont_ofExamination
  · exact .leftOut (by simp [Event.level])

theorem ofFont_orReport {result : Except Failure Extraction}
    (found : ∀ extraction, result = .ok extraction → extraction.OfFont) :
    (orReport file result).OfFont := by
  cases result with
  | ok extraction => exact found extraction rfl
  | error failure => exact .leftOut (by simp [Event.level])

theorem ofFont_of_simple (found : simple files file = .ok extraction) : extraction.OfFont := by
  simp only [simple, bind_eq_ok_iff, pure, Except.pure, Except.ok.injEq] at found
  rcases found with ⟨data, -, font, -, examination, -, rfl⟩
  apply ofFont_ofExamination

theorem ofFont_of_type1 (found : type1 files file = .ok extraction) : extraction.OfFont := by
  simp only [type1, bind_eq_ok_iff, pure, Except.pure, Except.ok.injEq] at found
  rcases found with ⟨font, -, rfl⟩
  exact .described (.type1 file font.name font.familyName font.weight)

/-! ## One after another -/

theorem records_concat (extractions : List Extraction) :
    (concat extractions).records = extractions.flatMap records := by
  induction extractions with
  | nil => rfl
  | cons first rest ih =>
      rw [List.flatMap_cons, ← ih]
      rfl

theorem events_concat (extractions : List Extraction) :
    (concat extractions).events = extractions.flatMap events := by
  induction extractions with
  | nil => rfl
  | cons first rest ih =>
      rw [List.flatMap_cons, ← ih]
      rfl

theorem announced_concat (announced : ∀ extraction ∈ extractions, extraction.Announced) :
    (concat extractions).Announced := by
  induction extractions with
  | nil => exact .nil
  | cons first rest ih =>
      have isFirst := announced first List.mem_cons_self
      have isRest := ih fun extraction later => announced extraction (List.mem_cons_of_mem _ later)
      simp only [Announced, records_concat, events_concat] at isFirst isRest ⊢
      rw [List.flatMap_cons, List.flatMap_cons, List.filter_append]
      exact List.rel_append isFirst isRest

/-- The event of a font stands at the place of the font. -/
theorem getElem?_events_concat (ofFont : ∀ extraction ∈ extractions, extraction.OfFont)
    (index : Nat) :
    (concat extractions).events[index]? = extractions[index]?.bind (·.events.head?) := by
  rw [events_concat]
  induction extractions generalizing index with
  | nil => rfl
  | cons first rest ih =>
      rcases (ofFont first List.mem_cons_self).exists_event with ⟨event, isEvent, -⟩
      rw [List.flatMap_cons, isEvent]
      cases index with
      | zero => simp [isEvent]
      | succ index =>
          simpa using ih (fun extraction later => ofFont extraction (List.mem_cons_of_mem _ later))
            index

theorem length_events_concat (ofFont : ∀ extraction ∈ extractions, extraction.OfFont) :
    (concat extractions).events.length = extractions.length := by
  rw [events_concat]
  induction extractions with
  | nil => rfl
  | cons first rest ih =>
      rcases (ofFont first List.mem_cons_self).exists_event with ⟨event, isEvent, -⟩
      rw [List.flatMap_cons, List.length_append, isEvent,
        ih fun extraction later => ofFont extraction (List.mem_cons_of_mem _ later)]
      simp [Nat.add_comm]

/-! ## Members of a collection -/

/-- The record that a member of a collection contributes. -/
def recordOf? (file : Path) (member : Except Sfnt.ReadFault Sfnt.Font) : Option FontRecord :=
  match member with
  | .error _ => none
  | .ok font =>
      match font.examine file with
      | .error _ => none
      | .ok examination => examination.record?

theorem records_ofMember_eq (file : Path) (index : Nat)
    (member : Except Sfnt.ReadFault Sfnt.Font) :
    (ofMember file index member).records = (recordOf? file member).toList := by
  cases member with
  | error fault => rfl
  | ok font =>
      simp only [ofMember, recordOf?, during, bind, Except.bind]
      cases font.examine file with
      | error failure => rfl
      | ok examination => rfl

theorem records_ofCollection (file : Path) (collection : Sfnt.Collection) :
    (ofCollection file collection).records = collection.members.filterMap (recordOf? file) := by
  have placed : collection.members.zipIdx.map Prod.fst = collection.members :=
    List.zipIdx_map_fst 0 collection.members
  simp only [ofCollection, records_concat, List.flatMap_map, records_ofMember_eq]
  rw [← List.filterMap_eq_flatMap_toList]
  conv_rhs => rw [← placed, List.filterMap_map]
  rfl

/-! ## Files -/

theorem Origin.file_eq {record : FontRecord} (origin : Origin files file record) :
    record.file = file := by
  cases origin with
  | simple kind held parsed described => exact described.file_eq
  | collection kind held parsed readable described => exact described.file_eq
  | type1 kind held parsed named => simp [named, FontRecord.ofType1]

/-- A collection that can be read contributes what its members contribute. -/
theorem ofFile_of_collection {data : Bytes} {collection : Sfnt.Collection}
    (kind : file.classify = .collection) (isData : files.read file = .ok data)
    (parsed : Sfnt.Collection.read data = .ok collection) :
    ofFile files file = ofCollection file collection := by
  have found : Extraction.collection files file = .ok (ofCollection file collection) := by
    simp [Extraction.collection, isData, parsed, during, bind, Except.bind, pure, Except.pure]
  simp only [ofFile, kind, found, orReport]

theorem records_ofFiles (files : FileSystem) (paths : List Path) :
    (ofFiles files paths).records = paths.flatMap fun path => (ofFile files path).records := by
  rw [ofFiles, records_concat, List.flatMap_map]

theorem events_ofFiles (files : FileSystem) (paths : List Path) :
    (ofFiles files paths).events = paths.flatMap fun path => (ofFile files path).events := by
  rw [ofFiles, events_concat, List.flatMap_map]

end Extraction

end FontCatalog
