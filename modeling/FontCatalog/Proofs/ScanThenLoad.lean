import FontCatalog.Proofs.FollowedNames
import FontCatalog.Proofs.Origins

/-!
# Scanning, then loading

Scanning looks at the extension of a path and loading at the bytes of the file. This module shows
that the two views agree: as long as a file keeps its bytes, the font behind each of its records
can be loaded, and what is loaded is the font that the record describes by format and name. The
one exception is by design: an OpenType member of a collection is scanned and cannot be loaded.

The bytes of a single font never read as a collection, since the tag of a collection is no version
of a font. A collection is searched again by name, so the member that is loaded is the first one
with the name of the record, which need not be the member that the record describes.
-/

namespace FontCatalog

namespace Sfnt

variable {data : Bytes} {font : Font} {collection : Collection}

/-! ## The two readings of a file -/

theorem Collection.read_ne_ok_of_read (parsed : Font.read data = .ok font) :
    Collection.read data ≠ .ok collection := by
  intro isCollection
  simp only [Font.read, Font.readAt, List.drop_zero] at parsed
  simp only [Collection.read] at isCollection
  cases header : data.slice? 0 12 with
  | none => simp [header] at parsed
  | some start =>
      simp only [header] at parsed isCollection
      split at isCollection
      · rename_i isTag
        rw [isTag] at parsed
        split at parsed
        · rename_i isVersion
          exact absurd isVersion (by decide)
        · cases parsed
      · cases isCollection

theorem FontFile.read_of_font (parsed : Font.read data = .ok font) :
    FontFile.read data = .ok (.single font) := by
  simp only [read]
  split
  · rename_i isCollection
    exact absurd isCollection (Collection.read_ne_ok_of_read parsed)
  · simp [parsed, Except.map]

theorem FontFile.read_of_collection (parsed : Collection.read data = .ok collection) :
    FontFile.read data = .ok (.collection collection) := by
  simp [read, parsed]

theorem Font.readMember_of_collection (parsed : Collection.read data = .ok collection)
    (index : Nat) : Font.readMember data index = collection.member index := by
  simp [readMember, FontFile.read_of_collection parsed, bind, Except.bind, FontFile.member]

end Sfnt

/-! ## Programs that are made -/

namespace SfntProgram

variable {data : Bytes} {member? : Option Nat} {name : String} {font : Sfnt.Font}

theorem make_eq_ok (found : SfntProgram.find ⟨data, member?, name⟩ = .ok font) :
    make data member? name = .ok ⟨data, member?, name⟩ := by
  simp [make, SfntProgram.font, found, during, Except.map]

theorem font_eq_ok {program : SfntProgram} (found : program.find = .ok font) :
    program.font = .ok font := by
  simp [SfntProgram.font, found, during]

theorem find_of_collection {collection : Sfnt.Collection}
    (parsed : Sfnt.Collection.read data = .ok collection) (index : Nat) (name : String) :
    SfntProgram.find ⟨data, some index, name⟩ = collection.member index :=
  Sfnt.Font.readMember_of_collection parsed index

end SfntProgram

namespace Loading

variable {files : FileSystem} {file : Path} {data : Bytes} {name : String}

theorem readFontFile_eq_ok {held : Sfnt.FontFile} (isData : files.read file = .ok data)
    (parsed : Sfnt.FontFile.read data = .ok held) :
    readFontFile files file = .ok (data, held) := by
  simp [readFontFile, isData, parsed, during, bind, Except.bind, pure, Except.pure]

theorem result_type1 {font : Type1.Font} (isData : files.read file = .ok data)
    (parsed : Type1.Font.ofBytes data = .ok font) :
    (type1 files file).result = .ok (.type1 font) := by
  have loaded : Type1.Font.load files file = .ok font :=
    Type1.Font.load_eq_ok_iff.mpr ⟨data, isData, parsed⟩
  simp [type1, silent, loaded, Except.map]

theorem result_trueType_of_font {font : Sfnt.Font} (isData : files.read file = .ok data)
    (parsed : Sfnt.Font.read data = .ok font) :
    (trueType files file name).result = .ok (.trueType ⟨data, none, name⟩) := by
  have isFile := readFontFile_eq_ok isData (Sfnt.FontFile.read_of_font parsed)
  have made : SfntProgram.make data none name = .ok ⟨data, none, name⟩ :=
    SfntProgram.make_eq_ok parsed
  simp [trueType, isFile, silent, made, Except.map]

theorem result_openType_of_font {font : Sfnt.Font} (isData : files.read file = .ok data)
    (parsed : Sfnt.Font.read data = .ok font) :
    (openType files file name).result = .ok (.openType ⟨data, none, name⟩) := by
  have isFile := readFontFile_eq_ok isData (Sfnt.FontFile.read_of_font parsed)
  have made : SfntProgram.make data none name = .ok ⟨data, none, name⟩ :=
    SfntProgram.make_eq_ok parsed
  simp [openType, isFile, silent, made, Except.map]

theorem result_trueType_of_collection {collection : Sfnt.Collection} {index : Nat}
    {font : Sfnt.Font} (isData : files.read file = .ok data)
    (parsed : Sfnt.Collection.read data = .ok collection)
    (first : collection.FirstNamed name index font) :
    (trueType files file name).result = .ok (.trueType ⟨data, some index, name⟩) := by
  have isFile := readFontFile_eq_ok isData (Sfnt.FontFile.read_of_collection parsed)
  have found : (collection.find file name).1 = some index :=
    Sfnt.Collection.find_eq_some_iff.mpr ⟨font, first⟩
  have readable : SfntProgram.find ⟨data, some index, name⟩ = .ok font :=
    (SfntProgram.find_of_collection parsed index name).trans first.readable
  have made := SfntProgram.make_eq_ok readable
  simp [trueType, isFile, found, ofFound, made, Except.map]

theorem result_openType_of_collection {collection : Sfnt.Collection}
    (isData : files.read file = .ok data)
    (parsed : Sfnt.Collection.read data = .ok collection) :
    (openType files file name).result = .error ⟨[], .openTypeInCollection name file⟩ := by
  have isFile := readFontFile_eq_ok isData (Sfnt.FontFile.read_of_collection parsed)
  simp [openType, isFile, silent]

end Loading

/-! ## What a program owes to a record -/

/-- What a program has to be to stand for a record of a file with the given bytes. -/
structure FontProgram.StandsFor (program : FontProgram) (record : FontRecord) (file : Path)
    (data : Bytes) : Prop where
  format_eq : program.format = record.format
  name_eq : program.postscriptName = record.postscriptName
  type1 : ∀ font, program.type1? = some font → Type1.Font.ofBytes data = .ok font
  single : ∀ sfnt, program.sfnt? = some sfnt → file.classify = .simple →
    sfnt.member? = none ∧ ∃ font, Sfnt.Font.read data = .ok font ∧ sfnt.font = .ok font
  member : ∀ sfnt, program.sfnt? = some sfnt → file.classify = .collection →
    ∃ collection index font, Sfnt.Collection.read data = .ok collection ∧
      collection.FirstNamed record.postscriptName index font ∧
      sfnt.member? = some index ∧ sfnt.font = .ok font

namespace FontProgram

variable {record : FontRecord} {file : Path} {data : Bytes}

theorem standsFor_type1 {font : Type1.Font}
    (parsed : Type1.Font.ofBytes data = .ok font) :
    (FontProgram.type1 font).StandsFor (FontRecord.ofType1 file font.name) file data where
  format_eq := rfl
  name_eq := rfl
  type1 := by
    intro other isOther
    cases isOther
    exact parsed
  single := by
    intro sfnt isSfnt
    cases isSfnt
  member := by
    intro sfnt isSfnt
    cases isSfnt

/-- The program of the only font of a file, whichever format it is loaded as. -/
theorem standsFor_single {program : FontProgram} {font : Sfnt.Font}
    (kind : file.classify = .simple) (parsed : Sfnt.Font.read data = .ok font)
    (format_eq : program.format = record.format)
    (isSfnt : program.sfnt? = some ⟨data, none, record.postscriptName⟩) :
    program.StandsFor record file data := by
  have isFont : SfntProgram.font ⟨data, none, record.postscriptName⟩ = .ok font :=
    SfntProgram.font_eq_ok parsed
  refine ⟨format_eq, ?_, ?_, ?_, ?_⟩
  · cases program with
    | type1 other => cases isSfnt
    | trueType sfnt => cases isSfnt; rfl
    | openType sfnt => cases isSfnt; rfl
  · intro other isOther
    cases program with
    | type1 held => cases isSfnt
    | trueType sfnt => cases isOther
    | openType sfnt => cases isOther
  · intro sfnt isOther _
    cases isSfnt.symm.trans isOther
    exact ⟨rfl, font, parsed, isFont⟩
  · intro sfnt _ isCollection
    rw [kind] at isCollection
    cases isCollection

theorem standsFor_member {collection : Sfnt.Collection} {index : Nat} {font : Sfnt.Font}
    (kind : file.classify = .collection) (isTrueType : record.format = .trueType)
    (parsed : Sfnt.Collection.read data = .ok collection)
    (first : collection.FirstNamed record.postscriptName index font) :
    (FontProgram.trueType ⟨data, some index, record.postscriptName⟩).StandsFor record file
      data where
  format_eq := isTrueType.symm
  name_eq := rfl
  type1 := by
    intro other isOther
    cases isOther
  single := by
    intro sfnt _ isSimple
    rw [kind] at isSimple
    cases isSimple
  member := by
    intro sfnt isSfnt _
    cases isSfnt
    refine ⟨collection, index, font, parsed, first, rfl, ?_⟩
    apply SfntProgram.font_eq_ok
    rw [SfntProgram.find_of_collection parsed]
    exact first.readable

end FontProgram

/-! ## Loading by origin -/

namespace FontRecord

variable {files : FileSystem} {file : Path} {record : FontRecord} {data : Bytes}

/-- Loading a record ends as its origin foretells: with a program that stands for the record, or,
for an OpenType member of a collection, with the fault that such members are not supported. -/
def LoadsAsScanned (record : FontRecord) (files : FileSystem) (file : Path) (data : Bytes) :
    Prop :=
  if record.format = .openType ∧ file.classify = .collection then
    (record.load files).result = .error ⟨[], .openTypeInCollection record.postscriptName file⟩
  else
    ∃ program, (record.load files).result = .ok program ∧ program.StandsFor record file data

theorem loadsAsScanned_of_font {font : Sfnt.Font} (kind : file.classify = .simple)
    (isData : files.read file = .ok data) (parsed : Sfnt.Font.read data = .ok font)
    (described : font.Describes file record) : record.LoadsAsScanned files file data := by
  have isFile := described.file_eq
  rw [LoadsAsScanned, if_neg (by simp [kind])]
  cases isFormat : record.format with
  | type1 => exact absurd isFormat described.format_ne_type1
  | trueType =>
      refine ⟨.trueType ⟨data, none, record.postscriptName⟩, ?_, ?_⟩
      · simp only [load, isFormat, isFile]
        exact Loading.result_trueType_of_font isData parsed
      · exact FontProgram.standsFor_single kind parsed isFormat.symm rfl
  | openType =>
      refine ⟨.openType ⟨data, none, record.postscriptName⟩, ?_, ?_⟩
      · simp only [load, isFormat, isFile]
        exact Loading.result_openType_of_font isData parsed
      · exact FontProgram.standsFor_single kind parsed isFormat.symm rfl

theorem loadsAsScanned_of_member {collection : Sfnt.Collection} {index : Nat} {font : Sfnt.Font}
    (kind : file.classify = .collection) (isData : files.read file = .ok data)
    (parsed : Sfnt.Collection.read data = .ok collection)
    (readable : collection.member index = .ok font) (described : font.Describes file record) :
    record.LoadsAsScanned files file data := by
  have isFile := described.file_eq
  cases isFormat : record.format with
  | type1 => exact absurd isFormat described.format_ne_type1
  | trueType =>
      rw [LoadsAsScanned, if_neg (by simp [isFormat])]
      rcases Sfnt.Collection.exists_firstNamed readable described.postscriptName?_eq with
        ⟨place, found, first⟩
      refine ⟨_, ?_, FontProgram.standsFor_member kind isFormat parsed first⟩
      simp only [load, isFormat, isFile]
      exact Loading.result_trueType_of_collection isData parsed first
  | openType =>
      rw [LoadsAsScanned, if_pos ⟨isFormat, kind⟩]
      simp only [load, isFormat, isFile]
      exact Loading.result_openType_of_collection isData parsed

theorem loadsAsScanned_of_type1 {font : Type1.Font} (kind : file.classify = .type1)
    (isData : files.read file = .ok data) (parsed : Type1.Font.ofBytes data = .ok font) :
    (FontRecord.ofType1 file font.name).LoadsAsScanned files file data := by
  rw [LoadsAsScanned, if_neg (by simp [kind])]
  exact ⟨.type1 font, Loading.result_type1 isData parsed, FontProgram.standsFor_type1 parsed⟩

theorem loadsAsScanned_of_origin {later : FileSystem} (origin : Extraction.Origin files file record)
    (unchanged : later.read file = files.read file) :
    ∃ data, later.read file = .ok data ∧ record.LoadsAsScanned later file data := by
  cases origin with
  | simple kind held parsed described =>
      have isData := unchanged.trans held
      exact ⟨_, isData, loadsAsScanned_of_font kind isData parsed described⟩
  | collection kind held parsed readable described =>
      have isData := unchanged.trans held
      exact ⟨_, isData, loadsAsScanned_of_member kind isData parsed readable described⟩
  | type1 kind held parsed named =>
      have isData := unchanged.trans held
      subst named
      exact ⟨_, isData, loadsAsScanned_of_type1 kind isData parsed⟩

/-- While a file keeps its bytes, each of its records loads, to a program that stands for the
record, unless it describes an OpenType member of a collection. -/
theorem load_of_mem_records_ofFile {later : FileSystem}
    (extracted : record ∈ (Extraction.ofFile files file).records)
    (unchanged : later.read file = files.read file) :
    ((∃ program, (record.load later).result = .ok program) ↔
        ¬(record.format = .openType ∧ file.classify = .collection)) ∧
      (record.format = .openType ∧ file.classify = .collection →
        ∃ failure, (record.load later).result = .error failure ∧
          failure.message = "loading CFF font " ++ record.postscriptName ++
            " from collection " ++ file.display ++ " is not supported") ∧
      ∃ data, later.read file = .ok data ∧
        ∀ program, (record.load later).result = .ok program →
          program.StandsFor record file data := by
  rcases loadsAsScanned_of_origin (Extraction.origin_of_mem_records extracted) unchanged with
    ⟨data, isData, loads⟩
  simp only [LoadsAsScanned] at loads
  split at loads
  · rename_i unsupported
    refine ⟨?_, ?_, data, isData, ?_⟩
    · simp [loads, unsupported]
    · intro _
      exact ⟨_, loads, String.intercalate_singleton⟩
    · intro program isProgram
      rw [loads] at isProgram
      cases isProgram
  · rename_i supported
    rcases loads with ⟨program, loaded, standsFor⟩
    refine ⟨?_, ?_, data, isData, ?_⟩
    · simp [loaded, supported]
    · intro unsupported
      exact absurd unsupported supported
    · intro other isOther
      rw [loaded] at isOther
      cases isOther
      exact standsFor

end FontRecord

/-! ## A collection with namesakes -/

namespace Specimen

/-- A naming table with the PostScript name `A` for the Macintosh. -/
def names : Bytes :=
  [0, 0, 0, 1, 0, 18, 0, 1, 0, 0, 0, 0, 0, 6, 0, 1, 0, 0, 0x41]

/-- The directory of a font with only the naming table, which stands at place 96. -/
def headless : Bytes :=
  [0, 1, 0, 0, 0, 1, 0, 0, 0, 0, 0, 0,
    0x6E, 0x61, 0x6D, 0x65, 0, 0, 0, 0, 0, 0, 0, 96, 0, 0, 0, 19]

/-- The directory of a font with the same naming table and a header at place 115. -/
def whole : Bytes :=
  [0, 1, 0, 0, 0, 2, 0, 0, 0, 0, 0, 0,
    0x6E, 0x61, 0x6D, 0x65, 0, 0, 0, 0, 0, 0, 0, 96, 0, 0, 0, 19,
    0x68, 0x65, 0x61, 0x64, 0, 0, 0, 0, 0, 0, 0, 115, 0, 0, 0, 54]

/-- A collection of three members: one beyond the end of the file, one without a header, and one
that is whole and has the same name as the one before it. -/
def namesakes : Bytes :=
  [0x74, 0x74, 0x63, 0x66, 0, 1, 0, 0, 0, 0, 0, 3, 0, 0, 1, 0, 0, 0, 0, 24, 0, 0, 0, 52] ++
    headless ++ whole ++ names ++ List.replicate 54 0

/-- The file of that collection. -/
def file : Path :=
  ⟨[0x61, 0x2E, 0x74, 0x74, 0x63]⟩

/-- A directory with that collection in it. -/
def files : FileSystem :=
  (FileSystem.withDirectory [0x77]).put [[0x77], file.spelling] (.file namesakes)

/-- The file system after another file was written. -/
def later : FileSystem :=
  files.put [[0x77], [0x62]] (.file names)

/-- What a catalog knows about the only member that is whole. -/
def record : FontRecord where
  file := file
  format := .trueType
  postscriptName := "A"
  cidSystemInfo := none
  weightClass := -1
  familyClass := -1
  codePageRange1 := 0
  codePageRange2 := 0
  macStyle := 0
  panose := none

theorem read_file : files.read file = .ok namesakes :=
  FileSystem.IsSingleName.read_eq_ok (by decide) rfl

theorem read_later : later.read file = files.read file := by
  rw [read_file]
  exact FileSystem.IsSingleName.read_eq_ok (by decide) rfl

theorem records_ofFile : (Extraction.ofFile files file).records = [record] := by
  have kind : file.classify = .collection := by decide +kernel
  simp only [Extraction.ofFile, kind, Extraction.collection, read_file]
  decide +kernel

end Specimen

/-- The whole font of the specimen is extracted and can be loaded. -/
theorem FontRecord.load_specimen :
    Specimen.record ∈ (Extraction.ofFile Specimen.files Specimen.file).records ∧
      Specimen.later.read Specimen.file = Specimen.files.read Specimen.file ∧
      ∃ program data, (Specimen.record.load Specimen.later).result = .ok program ∧
        program.StandsFor Specimen.record Specimen.file data := by
  have extracted :
      Specimen.record ∈ (Extraction.ofFile Specimen.files Specimen.file).records := by
    simp [Specimen.records_ofFile]
  have unchanged := Specimen.read_later
  rcases load_of_mem_records_ofFile extracted unchanged with ⟨loads_iff, -, data, -, standsFor⟩
  have supported : ¬(Specimen.record.format = .openType ∧
      Specimen.file.classify = .collection) := by
    simp [Specimen.record]
  rcases loads_iff.mpr supported with ⟨program, loaded⟩
  exact ⟨extracted, unchanged, program, data, loaded, standsFor program loaded⟩

end FontCatalog
