import FontCatalog.Catalog
import FontCatalog.Proofs.ByteStrings
import FontCatalog.Proofs.Contributions
import FontCatalog.Proofs.ScanThenLoad

/-!
# Every font is accounted for

A font file with one font leads to one event, which announces its record or says why there is none.
A collection leads to one event for each of its members, in their order, and the events that
announce a record stand in the order of the records. So the size of a catalog is the number of
announcements among the events of its files.

The members of a collection are those of its list of offsets. Where that list is cut off, the
collection has no members, whatever number of fonts its header declares: fonts that are declared in
front of a list of offsets that does not fit are passed over without an event.
-/

namespace FontCatalog

namespace Sfnt.Collection

variable {data : Bytes} {collection : Collection}

/-- The number of fonts that the header of a collection declares. -/
def declaredCount (data : Bytes) : Nat :=
  Bytes.bigEndian ((data.drop 8).take 4)

/-- A collection has the members that its header declares, or none if their offsets do not fit. -/
theorem length_members_of_read (parsed : Collection.read data = .ok collection) :
    collection.members.length =
      if 12 + 4 * declaredCount data ≤ data.length then declaredCount data else 0 := by
  simp only [Collection.read, Bytes.slice?] at parsed
  split at parsed
  · cases parsed
  · rename_i header isHeader
    split at isHeader
    · cases isHeader
      split at parsed
      · cases parsed
        simp only [members, List.length_map, Bytes.table, List.drop_zero, List.drop_take,
          declaredCount, Nat.reduceSub]
        split
        · rename_i fits
          simp [fits, Bytes.length_chunks]
        · rename_i cutOff
          simp [cutOff]
      · cases parsed
    · cases isHeader

end Sfnt.Collection

namespace Extraction

open Sfnt

/-- What becomes of the members of a collection in a file. -/
structure AccountsForMembers (file : Path) (data : Bytes) (collection : Collection)
    (extraction : Extraction) : Prop where
  records_eq : extraction.records = collection.members.filterMap (recordOf? file)
  length_events : extraction.events.length = collection.members.length
  own_event : ∀ index member, collection.members[index]? = some member →
    ∃ event, extraction.events[index]? = some event ∧
      (ofMember file index member).events = [event] ∧
      (event.level = .trace ↔ (recordOf? file member).isSome)
  announced : extraction.Announced
  length_eq_declared_iff : extraction.events.length = Collection.declaredCount data ↔
    12 + 4 * Collection.declaredCount data ≤ data.length ∨ Collection.declaredCount data = 0

/-- What becomes of the fonts of a file. -/
structure AccountsFor (files : FileSystem) (file : Path) (extraction : Extraction) : Prop where
  unrecognized : file.classify = .unrecognized → extraction = empty
  single : file.classify = .simple ∨ file.classify = .type1 → extraction.OfFont
  unreadable : file.classify = .collection →
    (∀ data collection, files.read file = .ok data → Collection.read data ≠ .ok collection) →
    ∃ event, event.level = .error ∧ extraction = ⟨[], [event]⟩
  members : file.classify = .collection → ∀ data collection, files.read file = .ok data →
    Collection.read data = .ok collection → extraction.AccountsForMembers file data collection

variable {files : FileSystem} {file : Path} {data : Bytes} {collection : Collection}

theorem ofFont_of_mem_members {extraction : Extraction}
    (present : extraction ∈ collection.members.zipIdx.map fun (member, index) =>
      ofMember file index member) : extraction.OfFont := by
  rcases List.mem_map.mp present with ⟨⟨member, index⟩, -, rfl⟩
  apply ofFont_ofMember

theorem accountsForMembers_ofCollection (file : Path)
    (parsed : Collection.read data = .ok collection) :
    (ofCollection file collection).AccountsForMembers file data collection := by
  have length_events : (ofCollection file collection).events.length =
      collection.members.length := by
    rw [ofCollection, length_events_concat fun _ => ofFont_of_mem_members]
    simp
  refine ⟨records_ofCollection file collection, length_events, ?_, ?_, ?_⟩
  · intro index member isMember
    rcases (ofFont_ofMember file index member).exists_event with ⟨event, isEvent, level_iff⟩
    refine ⟨event, ?_, isEvent, ?_⟩
    · rw [ofCollection, getElem?_events_concat fun _ => ofFont_of_mem_members]
      simp [isMember, isEvent]
    · rw [level_iff, records_ofMember_eq]
      cases recordOf? file member <;> simp
  · apply announced_concat
    intro extraction present
    exact (ofFont_of_mem_members present).announced
  · rw [length_events, Collection.length_members_of_read parsed]
    split <;> omega

theorem accountsFor_ofFile (files : FileSystem) (file : Path) :
    AccountsFor files file (ofFile files file) := by
  refine ⟨?_, ?_, ?_, ?_⟩
  · intro kind
    simp only [ofFile, kind]
  · rintro (kind | kind)
    · simp only [ofFile, kind]
      exact ofFont_orReport fun extraction => ofFont_of_simple
    · simp only [ofFile, kind]
      exact ofFont_orReport fun extraction => ofFont_of_type1
  · intro kind unreadable
    simp only [ofFile, kind]
    cases found : Extraction.collection files file with
    | error failure => exact ⟨_, rfl, rfl⟩
    | ok extraction =>
        simp only [Extraction.collection, bind_eq_ok_iff, during_eq_ok_iff] at found
        rcases found with ⟨data, isData, held, parsed, -⟩
        exact absurd parsed (unreadable data held isData)
  · intro kind data collection isData parsed
    rw [ofFile_of_collection kind isData parsed]
    exact accountsForMembers_ofCollection file parsed

theorem announced_ofFile (files : FileSystem) (file : Path) : (ofFile files file).Announced := by
  have accounts := accountsFor_ofFile files file
  cases kind : file.classify with
  | unrecognized =>
      rw [accounts.unrecognized kind]
      exact .nil
  | simple => exact (accounts.single (.inl kind)).announced
  | type1 => exact (accounts.single (.inr kind)).announced
  | collection =>
      by_cases readable : ∃ data collection, files.read file = .ok data ∧
          Collection.read data = .ok collection
      · rcases readable with ⟨data, collection, isData, parsed⟩
        exact (accounts.members kind data collection isData parsed).announced
      · have unreadable := accounts.unreadable kind fun data collection isData parsed =>
          readable ⟨data, collection, isData, parsed⟩
        rcases unreadable with ⟨event, isError, isEvent⟩
        rw [isEvent]
        simp [Announced, isError]

end Extraction

/-- The events of a scan account for every font that its files hold, as far as the offsets of the
collections among them can be read, and the catalog has as many records as fonts are announced. -/
theorem Catalog.accounts_for_fonts (files : FileSystem) :
    (∀ file, Extraction.AccountsFor files file (Extraction.ofFile files file)) ∧
      ∀ paths, ∃ reported,
        reported = paths.flatMap (fun path => (Extraction.ofFile files path).events) ∧
        (ofFiles files paths).2 = reported ++ [.indexed (ofFiles files paths).1.size] ∧
        (ofFiles files paths).1.size = reported.countP (·.level = .trace) := by
  refine ⟨Extraction.accountsFor_ofFile files, ?_⟩
  intro paths
  have isEvents := Extraction.events_ofFiles files paths
  have announced : (Extraction.ofFiles files paths).Announced := by
    apply Extraction.announced_concat
    intro extraction present
    rcases List.mem_map.mp present with ⟨path, -, rfl⟩
    exact Extraction.announced_ofFile files path
  refine ⟨_, rfl, ?_, ?_⟩
  · rw [← isEvents]
    rfl
  · rw [← isEvents]
    exact announced.length_records

/-- Of the three members of the specimen one is announced. -/
theorem Catalog.accounts_for_specimen :
    Specimen.file.classify = .collection ∧
      Specimen.files.read Specimen.file = .ok Specimen.namesakes ∧
      Sfnt.Collection.read Specimen.namesakes = .ok ⟨Specimen.namesakes, [0x100, 24, 52]⟩ ∧
      ∃ reported, reported.length = 3 ∧ reported.countP (·.level = .trace) = 1 ∧
        (ofFiles Specimen.files [Specimen.file]).2 = reported ++ [.indexed 1] := by
  have kind : Specimen.file.classify = .collection := by decide +kernel
  have parsed : Sfnt.Collection.read Specimen.namesakes =
      .ok ⟨Specimen.namesakes, [0x100, 24, 52]⟩ := by
    decide +kernel
  have hasOne : (ofFiles Specimen.files [Specimen.file]).1.size = 1 := by
    have isRecords : (ofFiles Specimen.files [Specimen.file]).1.records =
        (Extraction.ofFile Specimen.files Specimen.file).records ++ [] := rfl
    rw [size, isRecords, Specimen.records_ofFile]
    rfl
  refine ⟨kind, Specimen.read_file, parsed, ?_⟩
  rcases accounts_for_fonts Specimen.files with ⟨accountsFor, announced⟩
  rcases announced [Specimen.file] with ⟨reported, isReported, isEvents, isCount⟩
  have members := (accountsFor Specimen.file).members kind _ _ Specimen.read_file parsed
  rw [hasOne] at isEvents isCount
  refine ⟨reported, ?_, isCount.symm, isEvents⟩
  rw [isReported, List.flatMap_singleton]
  exact members.length_events

/-! ## A list of offsets that is cut off -/

namespace Specimen

/-- The header of a collection of two fonts, with nothing behind it. -/
def headerOnly : Bytes :=
  [0x74, 0x74, 0x63, 0x66, 0, 1, 0, 0, 0, 0, 0, 2]

/-- The file of the collection that ends behind its header. -/
def headerOnlyFile : Path :=
  ⟨[0x74, 0x2E, 0x74, 0x74, 0x63]⟩

/-- A directory with nothing but that file in it. -/
def headerOnlyFiles : FileSystem :=
  (FileSystem.withDirectory [0x77]).put [[0x77], headerOnlyFile.spelling] (.file headerOnly)

end Specimen

/-- Two fonts are declared, and nothing is reported. -/
theorem Extraction.ofFile_without_offsets :
    Specimen.headerOnlyFile.classify = .collection ∧
      Specimen.headerOnlyFiles.read Specimen.headerOnlyFile = .ok Specimen.headerOnly ∧
      Sfnt.Collection.read Specimen.headerOnly = .ok ⟨Specimen.headerOnly, []⟩ ∧
      Sfnt.Collection.declaredCount Specimen.headerOnly = 2 ∧
      ofFile Specimen.headerOnlyFiles Specimen.headerOnlyFile = empty := by
  have kind : Specimen.headerOnlyFile.classify = .collection := by decide +kernel
  have isData : Specimen.headerOnlyFiles.read Specimen.headerOnlyFile =
      .ok Specimen.headerOnly :=
    FileSystem.IsSingleName.read_eq_ok (by decide) rfl
  have parsed : Sfnt.Collection.read Specimen.headerOnly = .ok ⟨Specimen.headerOnly, []⟩ := by
    decide +kernel
  refine ⟨kind, isData, parsed, ?_, ?_⟩
  · decide +kernel
  · exact ofFile_of_collection kind isData parsed

end FontCatalog
