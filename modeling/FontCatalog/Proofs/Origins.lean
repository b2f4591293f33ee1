import FontCatalog.Proofs.MemberSearch

/-!
# Origins of records

Every record of a file has an origin: the font of a single-font file, a member of a collection, or
a Type 1 font. `Extraction.Origin` says for each of the three what was read, and the records of a
file are exactly those with an origin in it. What a record has in common with the font that it
describes is read off the examination of that font, once for all origins.
-/

namespace FontCatalog

/-! ## Results that are not failures -/

theorem during_eq_ok_iff {α ε : Type} {activity : Activity} {cause : ε → Cause}
    {result : Except ε α} {value : α} :
    during activity cause result = .ok value ↔ result = .ok value := by
  cases result with
  | ok first => simp [during]
  | error fault => simp [during]

theorem within_eq_ok_iff {α : Type} {activity : Activity} {result : Except Failure α}
    {value : α} :
    Failure.within activity result = .ok value ↔ result = .ok value := by
  cases result with
  | ok first => simp [Failure.within]
  | error failure => simp [Failure.within]

/-! ## What a record says about its font -/

namespace Face

variable {Fault : Type} {face : Face Fault} {file : Path} {record : FontRecord}
  {family subfamily : Option String}

theorem formatAndCollection_ne_type1 {format : FontFormat} {info : Option CidSystemInfo}
    (isFormat : face.formatAndCollection = .ok (format, info)) : format ≠ .type1 := by
  simp only [formatAndCollection] at isFormat
  split at isFormat
  · cases isFormat
  · cases isFormat
    simp
  · split at isFormat
    · cases isFormat
      simp
    · split at isFormat
      · cases isFormat
      · cases isFormat
        simp

/-- The only way for a face to be described by a record. -/
theorem exists_of_examine_eq_described
    (described : face.examine file = .ok (.described record family subfamily)) :
    ∃ name style format info,
      face.postscriptName = some name ∧ face.macStyle = some style ∧
        face.formatAndCollection = .ok (format, info) ∧
        record = face.record file name style format info := by
  simp only [examine] at described
  split at described
  · split at described
    · cases described
    · cases described
    · rename_i name style hasName hasStyle
      split at described
      · cases described
      · rename_i format info isFormat
        cases described
        exact ⟨name, style, format, info, hasName, hasStyle, isFormat, rfl⟩
  · cases described

end Face

namespace Sfnt.Font

variable {font : Font} {file : Path} {record : FontRecord}

/-- The font, as a font of the file, is described by the record. -/
def Describes (font : Font) (file : Path) (record : FontRecord) : Prop :=
  ∃ family subfamily, font.examine file = .ok (.described record family subfamily)

theorem Describes.face_examine (described : font.Describes file record) :
    ∃ family subfamily, font.face.examine file = .ok (.described record family subfamily) := by
  rcases described with ⟨family, subfamily, examined⟩
  refine ⟨family, subfamily, ?_⟩
  simp only [examine] at examined
  cases isFace : font.face.examine file with
  | error fault =>
      rw [isFace] at examined
      cases examined
  | ok examination =>
      rw [isFace] at examined
      cases examined
      rfl

theorem Describes.file_eq (described : font.Describes file record) : record.file = file := by
  rcases described.face_examine with ⟨family, subfamily, examined⟩
  rcases Face.exists_of_examine_eq_described examined with
    ⟨name, style, format, info, -, -, -, rfl⟩
  rfl

theorem Describes.postscriptName?_eq (described : font.Describes file record) :
    font.postscriptName? = some record.postscriptName := by
  rcases described.face_examine with ⟨family, subfamily, examined⟩
  rcases Face.exists_of_examine_eq_described examined with
    ⟨name, style, format, info, hasName, -, -, rfl⟩
  exact hasName

theorem Describes.format_ne_type1 (described : font.Describes file record) :
    record.format ≠ .type1 := by
  rcases described.face_examine with ⟨family, subfamily, examined⟩
  rcases Face.exists_of_examine_eq_described examined with
    ⟨name, style, format, info, -, -, isFormat, rfl⟩
  exact Face.formatAndCollection_ne_type1 isFormat

end Sfnt.Font

theorem Type1.Font.load_eq_ok_iff {files : FileSystem} {file : Path} {font : Type1.Font} :
    Type1.Font.load files file = .ok font ↔
      ∃ data, files.read file = .ok data ∧ Type1.Font.ofBytes data = .ok font := by
  simp only [load, FileSystem.read, bind_eq_ok_iff, during_eq_ok_iff, within_eq_ok_iff]
  constructor
  · rintro ⟨opened, isOpened, data, isData, isFont⟩
    refine ⟨data, ⟨opened, isOpened, isData⟩, ?_⟩
    cases parsed : Type1.Font.ofBytes data with
    | ok found => simpa [parsed] using isFont
    | error fault => simp [parsed] at isFont
  · rintro ⟨data, ⟨opened, isOpened, isData⟩, isFont⟩
    exact ⟨opened, isOpened, data, isData, by simp [isFont]⟩

/-! ## The records of a file -/

namespace Extraction

/-- How a record of a file comes about. -/
inductive Origin (files : FileSystem) (file : Path) (record : FontRecord) : Prop where
  /-- It describes the font of a single-font file. -/
  | simple {data : Bytes} {font : Sfnt.Font} (kind : file.classify = .simple)
      (held : files.read file = .ok data) (parsed : Sfnt.Font.read data = .ok font)
      (described : font.Describes file record)
  /-- It describes a member of a collection. -/
  | collection {data : Bytes} {collection : Sfnt.Collection} {index : Nat} {font : Sfnt.Font}
      (kind : file.classify = .collection) (held : files.read file = .ok data)
      (parsed : Sfnt.Collection.read data = .ok collection)
      (readable : collection.member index = .ok font) (described : font.Describes file record)
  /-- It names a Type 1 font. -/
  | type1 {data : Bytes} {font : Type1.Font} (kind : file.classify = .type1)
      (held : files.read file = .ok data) (parsed : Type1.Font.ofBytes data = .ok font)
      (named : record = FontRecord.ofType1 file font.name)

variable {files : FileSystem} {file : Path} {record : FontRecord}

theorem mem_records_concat_iff {extractions : List Extraction} :
    record ∈ (concat extractions).records ↔
      ∃ extraction ∈ extractions, record ∈ extraction.records := by
  induction extractions with
  | nil => simp [concat, empty]
  | cons first rest ih =>
      have split : (concat (first :: rest)).records = first.records ++ (concat rest).records := rfl
      rw [split, List.mem_append, ih]
      simp

theorem mem_records_orReport_iff {result : Except Failure Extraction} :
    record ∈ (orReport file result).records ↔
      ∃ extraction, result = .ok extraction ∧ record ∈ extraction.records := by
  cases result with
  | ok extraction => simp [orReport]
  | error failure => simp [orReport]

theorem mem_records_ofExamination_iff {examination : Examination} :
    record ∈ (ofExamination file examination).records ↔
      ∃ family subfamily, examination = .described record family subfamily := by
  cases examination with
  | described held family subfamily =>
      simp [ofExamination, Examination.record?, eq_comm]
  | _ => simp [ofExamination, Examination.record?]

theorem mem_records_ofMember_iff {index : Nat} {member : Except Sfnt.ReadFault Sfnt.Font} :
    record ∈ (ofMember file index member).records ↔
      ∃ font, member = .ok font ∧ font.Describes file record := by
  cases member with
  | error fault => simp [ofMember, during, bind, Except.bind]
  | ok font =>
      simp only [ofMember, during, bind, Except.bind, Except.ok.injEq, exists_eq_left']
      cases examined : font.examine file with
      | error failure => simp [Sfnt.Font.Describes, examined]
      | ok examination =>
          simp only [mem_records_ofExamination_iff, Sfnt.Font.Describes, examined,
            Except.ok.injEq]

theorem mem_records_ofCollection_iff {collection : Sfnt.Collection} :
    record ∈ (ofCollection file collection).records ↔
      ∃ font, .ok font ∈ collection.members ∧ font.Describes file record := by
  simp only [ofCollection, mem_records_concat_iff, List.mem_map]
  constructor
  · rintro ⟨extraction, ⟨⟨member, index⟩, placed, rfl⟩, inside⟩
    rcases mem_records_ofMember_iff.mp inside with ⟨font, rfl, described⟩
    exact ⟨font, List.fst_mem_of_mem_zipIdx placed, described⟩
  · rintro ⟨font, present, described⟩
    rcases List.mem_iff_getElem?.mp present with ⟨index, isIndex⟩
    refine ⟨_, ⟨(.ok font, index), ?_, rfl⟩, ?_⟩
    · exact List.mem_zipIdx_iff_getElem?.mpr isIndex
    · exact mem_records_ofMember_iff.mpr ⟨font, rfl, described⟩

theorem mem_records_simple_iff :
    (∃ extraction, simple files file = .ok extraction ∧ record ∈ extraction.records) ↔
      ∃ data font, files.read file = .ok data ∧ Sfnt.Font.read data = .ok font ∧
        font.Describes file record := by
  simp only [simple, bind_eq_ok_iff, during_eq_ok_iff, pure, Except.pure, Except.ok.injEq]
  constructor
  · rintro ⟨_, ⟨data, held, font, parsed, examination, examined, rfl⟩, inside⟩
    rcases mem_records_ofExamination_iff.mp inside with ⟨family, subfamily, rfl⟩
    exact ⟨data, font, held, parsed, family, subfamily, examined⟩
  · rintro ⟨data, font, held, parsed, family, subfamily, examined⟩
    refine ⟨_, ⟨data, held, font, parsed, _, examined, rfl⟩, ?_⟩
    exact mem_records_ofExamination_iff.mpr ⟨family, subfamily, rfl⟩

theorem mem_records_collection_iff :
    (∃ extraction, collection files file = .ok extraction ∧ record ∈ extraction.records) ↔
      ∃ data held, files.read file = .ok data ∧ Sfnt.Collection.read data = .ok held ∧
        ∃ font, .ok font ∈ held.members ∧ font.Describes file record := by
  simp only [collection, bind_eq_ok_iff, during_eq_ok_iff, pure, Except.pure, Except.ok.injEq]
  constructor
  · rintro ⟨_, ⟨data, isData, held, parsed, rfl⟩, inside⟩
    exact ⟨data, held, isData, parsed, mem_records_ofCollection_iff.mp inside⟩
  · rintro ⟨data, held, isData, parsed, inside⟩
    exact ⟨_, ⟨data, isData, held, parsed, rfl⟩, mem_records_ofCollection_iff.mpr inside⟩

theorem mem_records_type1_iff :
    (∃ extraction, type1 files file = .ok extraction ∧ record ∈ extraction.records) ↔
      ∃ data font, files.read file = .ok data ∧ Type1.Font.ofBytes data = .ok font ∧
        record = FontRecord.ofType1 file font.name := by
  simp only [type1, bind_eq_ok_iff, Type1.Font.load_eq_ok_iff, pure, Except.pure, Except.ok.injEq]
  constructor
  · rintro ⟨_, ⟨font, ⟨data, held, parsed⟩, rfl⟩, inside⟩
    exact ⟨data, font, held, parsed, List.mem_singleton.mp inside⟩
  · rintro ⟨data, font, held, parsed, named⟩
    exact ⟨_, ⟨font, ⟨data, held, parsed⟩, rfl⟩, List.mem_singleton.mpr named⟩

theorem origin_of_mem_records (extracted : record ∈ (ofFile files file).records) :
    Origin files file record := by
  simp only [ofFile] at extracted
  split at extracted
  · rename_i kind
    rw [mem_records_orReport_iff, mem_records_simple_iff] at extracted
    rcases extracted with ⟨data, font, held, parsed, described⟩
    exact .simple kind held parsed described
  · rename_i kind
    rw [mem_records_orReport_iff, mem_records_collection_iff] at extracted
    rcases extracted with ⟨data, held, isData, parsed, font, present, described⟩
    rcases Sfnt.Collection.mem_members_iff.mp present with ⟨index, readable⟩
    exact .collection kind isData parsed readable described
  · rename_i kind
    rw [mem_records_orReport_iff, mem_records_type1_iff] at extracted
    rcases extracted with ⟨data, font, held, parsed, named⟩
    exact .type1 kind held parsed named
  · simp [empty] at extracted

theorem Origin.mem_records (origin : Origin files file record) :
    record ∈ (ofFile files file).records := by
  cases origin with
  | simple kind held parsed described =>
      simp only [ofFile, kind, mem_records_orReport_iff]
      exact mem_records_simple_iff.mpr ⟨_, _, held, parsed, described⟩
  | collection kind held parsed readable described =>
      simp only [ofFile, kind, mem_records_orReport_iff]
      have present := Sfnt.Collection.mem_members_iff.mpr ⟨_, readable⟩
      exact mem_records_collection_iff.mpr ⟨_, _, held, parsed, _, present, described⟩
  | type1 kind held parsed named =>
      simp only [ofFile, kind, mem_records_orReport_iff]
      exact mem_records_type1_iff.mpr ⟨_, _, held, parsed, named⟩

end Extraction

end FontCatalog
