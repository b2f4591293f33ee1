import FontCatalog.Proofs.ScanThenLoad
import Mathlib.Control.Monad.Basic

/-!
# Which member of a collection is loaded

A record says which PostScript name its font has, and loading takes the first readable member with
that name. Scanning decides by more than the name which members become TrueType records. A member
that it leaves out, or that it records as OpenType, can therefore stand in the way of the member
that a record describes: such a member is a decoy for the record. For a record that no other record
of the file shares its key with, decoys are the only reason to load a wrong member.
-/

namespace FontCatalog

namespace Sfnt.Collection

variable {collection : Collection} {file : Path} {record : FontRecord}

/-- A place holds a decoy for a record: a readable member with its PostScript name that is no
TrueType font of the catalog, before every member that the record describes. -/
structure Decoy (collection : Collection) (file : Path) (record : FontRecord) (index : Nat) :
    Prop where
  exists_namesake : ∃ font, collection.member index = .ok font ∧
    font.postscriptName? = some record.postscriptName ∧
    ∀ other, font.Describes file other → other.format ≠ .trueType
  before_described : ∀ place font, collection.member place = .ok font →
    font.Describes file record → index < place

/-- A first member with the name of a record that the record does not describe is a decoy, unless
another record has the same key. -/
theorem decoy_of_firstNamed {index : Nat} {font : Font} (isTrueType : record.format = .trueType)
    (alone : ∀ place held other, collection.member place = .ok held →
      held.Describes file other → other.key = record.key → other = record)
    (isFile : record.file = file)
    (first : collection.FirstNamed record.postscriptName index font)
    (undescribed : ¬font.Describes file record) : collection.Decoy file record index where
  exists_namesake := by
    refine ⟨font, first.readable, first.named, ?_⟩
    intro other described otherTrueType
    have sameName : other.postscriptName = record.postscriptName :=
      Option.some.inj (described.postscriptName?_eq.symm.trans first.named)
    have sameKey : other.key = record.key := by
      simp [FontRecord.key, sameName, otherTrueType, isTrueType, described.file_eq, isFile]
    have same := alone index font other first.readable described sameKey
    exact undescribed (same ▸ described)
  before_described := by
    intro place held readable described
    have named := described.postscriptName?_eq
    rcases Nat.lt_trichotomy index place with before | same | after
    · exact before
    · subst same
      have sameFont := Except.ok.inj (first.readable.symm.trans readable)
      exact absurd (sameFont ▸ described) undescribed
    · exact absurd named (first.first place held after readable)

/-- Where the record describes the first member with its name, there is no decoy. -/
theorem not_decoy_of_describes {index place : Nat} {font : Font}
    (first : collection.FirstNamed record.postscriptName index font)
    (described : font.Describes file record) : ¬collection.Decoy file record place := by
  intro decoy
  rcases decoy.exists_namesake with ⟨namesake, readable, named, notTrueType⟩
  have before := decoy.before_described index font first.readable described
  exact first.first place namesake before readable named

end Sfnt.Collection

namespace FontRecord

variable {files later : FileSystem} {file : Path} {record : FontRecord}

/-- The record of a TrueType member of a collection, if it shares its key with no other record of
the file, is loaded from some member of that name; that member is the one that the record describes
exactly when the collection holds no decoy for it. -/
theorem load_selects_described_iff (kind : file.classify = .collection)
    (extracted : record ∈ (Extraction.ofFile files file).records)
    (isTrueType : record.format = .trueType)
    (alone : ∀ other ∈ (Extraction.ofFile files file).records,
      other.key = record.key → other = record)
    (unchanged : later.read file = files.read file) :
    ∃ data collection index font sfnt,
      later.read file = .ok data ∧ Sfnt.Collection.read data = .ok collection ∧
        (record.load later).result = .ok (.trueType sfnt) ∧ sfnt.member? = some index ∧
        collection.member index = .ok font ∧
        (font.Describes file record ↔ ∀ place, ¬collection.Decoy file record place) := by
  cases Extraction.origin_of_mem_records extracted with
  | simple other => rw [kind] at other; cases other
  | type1 other => rw [kind] at other; cases other
  | @collection data collection place own _ held parsed readable described =>
      have isData := unchanged.trans held
      have isFile := described.file_eq
      rcases Sfnt.Collection.exists_firstNamed readable described.postscriptName?_eq with
        ⟨index, font, first⟩
      have loaded :
          (record.load later).result =
            .ok (.trueType ⟨data, some index, record.postscriptName⟩) := by
        simp only [load, isTrueType, isFile]
        exact Loading.result_trueType_of_collection isData parsed first
      refine ⟨data, collection, index, font, _, isData, parsed, loaded, rfl, first.readable, ?_⟩
      constructor
      · intro fontDescribed place
        exact Sfnt.Collection.not_decoy_of_describes first fontDescribed
      · intro noDecoy
        by_cases fontDescribed : font.Describes file record
        · exact fontDescribed
        · apply absurd _ (noDecoy index)
          apply Sfnt.Collection.decoy_of_firstNamed isTrueType _ isFile first fontDescribed
          intro place member other otherReadable otherDescribed
          apply alone other
          apply Extraction.Origin.mem_records
          exact .collection kind held parsed otherReadable otherDescribed

end FontRecord

/-! ## The decoy of the specimen -/

namespace Specimen

/-- The collection of the specimen. -/
def collection : Sfnt.Collection :=
  ⟨namesakes, [0x100, 24, 52]⟩

/-- The member without a header. -/
def headlessFont : Sfnt.Font :=
  ⟨namesakes, Sfnt.Font.trueTypeVersion, [⟨Sfnt.Tag.naming, 96, 19⟩]⟩

theorem read_namesakes : Sfnt.Collection.read namesakes = .ok collection := by
  decide +kernel

theorem member_one : collection.member 1 = .ok headlessFont := by
  decide +kernel

theorem examine_headlessFont : headlessFont.examine file = .ok (.withoutHead "A") := by
  decide +kernel

theorem not_describes_headlessFont (other : FontRecord) : ¬headlessFont.Describes file other := by
  rintro ⟨family, subfamily, described⟩
  rw [examine_headlessFont] at described
  cases described

theorem decoy_one : collection.Decoy file record 1 where
  exists_namesake := by
    refine ⟨headlessFont, member_one, by decide +kernel, ?_⟩
    intro other described
    exact absurd described (not_describes_headlessFont other)
  before_described := by
    intro place font readable described
    rcases place with _ | _ | place
    · have unreadable : collection.member 0 = .error .outOfBounds := by decide +kernel
      rw [unreadable] at readable
      cases readable
    · have isFont := Except.ok.inj (member_one.symm.trans readable)
      exact absurd (isFont ▸ described) (not_describes_headlessFont record)
    · omega

end Specimen

namespace FontRecord

/-- The record of the whole font of the specimen is loaded from a member that it does not
describe. -/
theorem load_specimen_misses :
    Specimen.file.classify = .collection ∧
      Specimen.record ∈ (Extraction.ofFile Specimen.files Specimen.file).records ∧
      Specimen.record.format = .trueType ∧
      (∀ other ∈ (Extraction.ofFile Specimen.files Specimen.file).records,
        other.key = Specimen.record.key → other = Specimen.record) ∧
      Specimen.later.read Specimen.file = Specimen.files.read Specimen.file ∧
      ∃ index font sfnt, (Specimen.record.load Specimen.later).result = .ok (.trueType sfnt) ∧
        sfnt.member? = some index ∧ Specimen.collection.member index = .ok font ∧
        ¬font.Describes Specimen.file Specimen.record := by
  have kind : Specimen.file.classify = .collection := by decide +kernel
  have extracted :
      Specimen.record ∈ (Extraction.ofFile Specimen.files Specimen.file).records := by
    simp [Specimen.records_ofFile]
  have alone : ∀ other ∈ (Extraction.ofFile Specimen.files Specimen.file).records,
      other.key = Specimen.record.key → other = Specimen.record := by
    simp [Specimen.records_ofFile]
  have unchanged := Specimen.read_later
  refine ⟨kind, extracted, rfl, alone, unchanged, ?_⟩
  rcases load_selects_described_iff kind extracted rfl alone unchanged with
    ⟨data, collection, index, font, sfnt, held, parsed, loaded, selected, readable, own_iff⟩
  have isData : data = Specimen.namesakes :=
    Except.ok.inj (held.symm.trans (unchanged.trans Specimen.read_file))
  subst isData
  have isCollection : collection = Specimen.collection :=
    Except.ok.inj (parsed.symm.trans Specimen.read_namesakes)
  subst isCollection
  refine ⟨index, font, sfnt, loaded, selected, readable, ?_⟩
  intro described
  exact own_iff.mp described 1 Specimen.decoy_one

/-- A record that shares its key with no other can be loaded from a member that was left out. -/
theorem load_selects_member_left_out :
    (Extraction.ofFile Specimen.files Specimen.file).records = [Specimen.record] ∧
      Specimen.record.format = .trueType ∧
      (Specimen.record.load Specimen.files).result =
        .ok (.trueType ⟨Specimen.namesakes, some 1, "A"⟩) ∧
      Sfnt.Font.readMember Specimen.namesakes 1 = .ok Specimen.headlessFont ∧
      Specimen.headlessFont.examine Specimen.file = .ok (.withoutHead "A") := by
  have isData : Specimen.files.read Specimen.record.file = .ok Specimen.namesakes :=
    Specimen.read_file
  refine ⟨Specimen.records_ofFile, rfl, ?_, ?_, Specimen.examine_headlessFont⟩
  · simp only [load, Loading.trueType, Loading.readFontFile, isData]
    decide +kernel
  · rw [Sfnt.Font.readMember_of_collection Specimen.read_namesakes]
    exact Specimen.member_one

end FontRecord

end FontCatalog
