import FontCatalog.Catalog
import FontCatalog.Proofs.Contributions
import FontCatalog.Proofs.DirectorySearch
import FontCatalog.Proofs.ScanThenLoad

/-!
# Faults stay where they are

A scan reads one file after another, and the members of a collection one after another, and what it
records of one of them depends on nothing else. A file contributes the same records whatever the
other files hold, and a member of a collection contributes the same record wherever the bytes of its
directory and of its tables are the same.
-/

namespace FontCatalog

namespace Bytes

theorem slice?_zero_take {length count : Nat} (within : length ≤ count) (bytes : Bytes) :
    slice? (bytes.take count) 0 length = bytes.slice? 0 length := by
  simp only [slice?, List.length_take, Nat.le_min, Nat.zero_add, within, true_and,
    List.drop_zero, List.take_take, Nat.min_eq_left within]

theorem chunks_take (width count : Nat) (bytes : Bytes) :
    chunks width count (bytes.take (width * count)) = chunks width count bytes := by
  induction count generalizing bytes with
  | zero => rfl
  | succ count ih =>
      have first : min width (width * (count + 1)) = width := by
        rw [Nat.mul_succ]
        omega
      have rest : width * (count + 1) - width = width * count := by
        rw [Nat.mul_succ]
        omega
      simp [chunks, List.take_take, List.drop_take, first, rest, ih]

/-- Bytes behind a table do not count. -/
theorem table_take (offset width count : Nat) (bytes : Bytes) :
    table (bytes.take (offset + width * count)) offset width count =
      bytes.table offset width count := by
  simp only [table, List.length_take, Nat.le_min, Nat.le_refl, true_and, List.drop_take,
    Nat.add_sub_cancel_left, chunks_take]

end Bytes

namespace Sfnt

namespace Font

/-- The bytes of the directory at a place: the header and the entries that it declares, as far as
the file goes. -/
def directoryBytes (file : Bytes) (base : Nat) : Bytes :=
  let header : Bytes := file.drop base
  header.take (12 + 16 * Bytes.bigEndian ((header.drop 4).take 2))

/-- What is read at a place is decided by the bytes of the directory there. -/
theorem readAt_eq (file : Bytes) (base : Nat) :
    readAt file base =
      (readAt (directoryBytes file base) 0).map fun font => { font with file := file } := by
  simp only [readAt, directoryBytes, List.drop_zero]
  generalize file.drop base = header
  rw [Bytes.slice?_zero_take (Nat.le_add_right 12 _)]
  cases isStart : Bytes.slice? header 0 12 with
  | none => rfl
  | some start =>
      have isTake : start = header.take 12 := by
        simp only [Bytes.slice?, List.drop_zero] at isStart
        split at isStart
        · exact (Option.some.inj isStart).symm
        · cases isStart
      have isCount : (start.drop 4).take 2 = (header.drop 4).take 2 := by
        simp [isTake, List.drop_take, List.take_take]
      simp only [isCount, Bytes.table_take]
      split
      · rfl
      · rfl

variable {left right : Font}

/-- A face is decided by the version of a font and the bytes of its tables. -/
theorem face_congr (sameVersion : left.version = right.version)
    (sameTables : ∀ tag, left.table? tag = right.table? tag) : left.face = right.face := by
  simp only [face, nameTable?, name?, os2?, macStyle?, headTable?, isOpenType, outlines,
    sameVersion, sameTables]

end Font

/-- Fonts of one directory have the same tables where the bytes of each entry are the same. -/
theorem Font.table?_congr {left right : Font} (sameDirectory : left.directory = right.directory)
    (sameBytes : ∀ entry ∈ left.directory,
      left.file.slice? entry.offset entry.length = right.file.slice? entry.offset entry.length)
    (tag : Tag) : left.table? tag = right.table? tag := by
  simp only [table?, ← sameDirectory, Directory.lookup?_eq_find?, Option.bind_eq_bind]
  cases found : left.directory.find? fun entry => entry.tag == tag with
  | none => rfl
  | some entry => simp [sameBytes entry (List.mem_of_find?_eq_some found)]

/-- The members at a place of two collections are the same: they fail to be read in the same way, or
the bytes of their directories are the same, and so are the bytes of every table that is found. -/
inductive Collection.SameMember (left right : Collection) (index : Nat) : Prop
  | unreadable {fault : ReadFault} (leftFails : left.member index = .error fault)
      (rightFails : right.member index = .error fault)
  | readable {leftBase rightBase : Nat} (leftPlace : left.offsets[index]? = some leftBase)
      (rightPlace : right.offsets[index]? = some rightBase)
      (sameDirectory : Font.directoryBytes left.file leftBase =
        Font.directoryBytes right.file rightBase)
      (sameTables : ∀ leftFont rightFont, left.member index = .ok leftFont →
        right.member index = .ok rightFont →
        ∀ tag, leftFont.table? tag = rightFont.table? tag)

end Sfnt

namespace Extraction

open Sfnt

variable {left right : FileSystem} {file : Path}

/-! ## One member, one file -/

theorem recordOf?_congr {leftFont rightFont : Font} (same : leftFont.face = rightFont.face) :
    recordOf? file (.ok leftFont) = recordOf? file (.ok rightFont) := by
  simp only [recordOf?, Font.examine, same]

theorem recordOf?_eq_of_sameMember {left right : Collection} {index : Nat} (file : Path)
    (same : left.SameMember right index) :
    recordOf? file (left.member index) = recordOf? file (right.member index) := by
  cases same with
  | unreadable leftFails rightFails => rw [leftFails, rightFails]
  | readable leftPlace rightPlace sameDirectory sameTables =>
      simp only [Collection.member, leftPlace, rightPlace] at sameTables ⊢
      rw [Font.readAt_eq left.file, Font.readAt_eq right.file, sameDirectory] at sameTables ⊢
      cases isFont : Font.readAt (Font.directoryBytes right.file _) 0 with
      | error fault => rfl
      | ok font =>
          apply recordOf?_congr
          apply Font.face_congr
          · rfl
          · apply sameTables
            · simp [isFont, Except.map]
            · simp [isFont, Except.map]

theorem members_eq (collection : Collection) :
    collection.members = (List.range collection.offsets.length).map collection.member := by
  apply List.ext_getElem
  · simp [Collection.members]
  · intro index inside _
    simp only [Collection.members, List.length_map] at inside
    simp [Collection.members, Collection.member, inside]

/-- A collection contributes the records of its members in their order. -/
theorem records_ofFile_collection {files : FileSystem} {data : Bytes} {collection : Collection}
    (kind : file.classify = .collection) (isData : files.read file = .ok data)
    (parsed : Collection.read data = .ok collection) :
    (ofFile files file).records = (List.range collection.offsets.length).filterMap fun index =>
      recordOf? file (collection.member index) := by
  rw [ofFile_of_collection kind isData parsed, records_ofCollection, members_eq,
    List.filterMap_map]
  rfl

/-- A file contributes the same records wherever it is read with the same result. -/
theorem records_ofFile_congr (same : left.read file = right.read file) :
    (ofFile left file).records = (ofFile right file).records := by
  cases kind : file.classify with
  | simple => simp only [ofFile, kind, Extraction.simple, same]
  | collection => simp only [ofFile, kind, Extraction.collection, same]
  | unrecognized => simp only [ofFile, kind]
  | type1 =>
      -- Opening and reading fail in different words, so the two failures need not be the same.
      have sameFont (font : Type1.Font) :
          Type1.Font.load left file = .ok font ↔ Type1.Font.load right file = .ok font := by
        rw [Type1.Font.load_eq_ok_iff, Type1.Font.load_eq_ok_iff, same]
      simp only [ofFile, kind, Extraction.type1]
      cases isLeft : Type1.Font.load left file with
      | ok font => rw [(sameFont font).mp isLeft]
      | error failure =>
          cases isRight : Type1.Font.load right file with
          | ok font => simp [(sameFont font).mpr isRight] at isLeft
          | error other => rfl

/-! ## All files but one -/

theorem filter_records_ofFile (files : FileSystem) (damaged path : Path) :
    (ofFile files path).records.filter (·.file ≠ damaged) =
      if path ≠ damaged then (ofFile files path).records else [] := by
  have isFile : ∀ record ∈ (ofFile files path).records, record.file = path :=
    fun record extracted => (origin_of_mem_records extracted).file_eq
  split
  · rename_i other
    rw [List.filter_eq_self]
    intro record extracted
    simp [isFile record extracted, other]
  · rename_i isDamaged
    rw [List.filter_eq_nil_iff]
    intro record extracted
    simpa [isFile record extracted] using isDamaged

/-- The records of all files but one are those of a scan that leaves the one out. -/
theorem filter_records_ofFiles (files : FileSystem) (damaged : Path) (paths : List Path) :
    (ofFiles files paths).records.filter (·.file ≠ damaged) =
      (ofFiles files (paths.filter (· ≠ damaged))).records := by
  simp only [records_ofFiles]
  induction paths with
  | nil => rfl
  | cons path rest ih =>
      rw [List.flatMap_cons, List.filter_append, filter_records_ofFile, ih, List.filter_cons]
      split
      · rename_i other
        simp [other]
      · rename_i isDamaged
        simp [isDamaged]

theorem records_ofFiles_congr {paths : List Path}
    (same : ∀ path ∈ paths, left.read path = right.read path) :
    (ofFiles left paths).records = (ofFiles right paths).records := by
  rw [records_ofFiles, records_ofFiles]
  apply List.flatMap_congr
  intro path present
  exact records_ofFile_congr (same path present)

end Extraction

namespace Catalog

open Sfnt

/-- A scan is the scans of the parts of its list of paths. Damage to one file changes no record of
another one, and damage to one member of a collection changes no record of another one. -/
theorem isolates_faults :
    (∀ files front back, (ofFiles files (front ++ back)).1.records =
      (ofFiles files front).1.records ++ (ofFiles files back).1.records) ∧
    (∀ (left right : FileSystem) damaged paths,
      (∀ path ∈ paths, path ≠ damaged → left.read path = right.read path) →
      (ofFiles left paths).1.records.filter (·.file ≠ damaged) =
          (ofFiles left (paths.filter (· ≠ damaged))).1.records ∧
        (ofFiles left paths).1.records.filter (·.file ≠ damaged) =
          (ofFiles right paths).1.records.filter (·.file ≠ damaged)) ∧
    (∀ (left right : FileSystem) (file : Path) leftData rightData leftHeld rightHeld,
      file.classify = .collection →
      left.read file = .ok leftData → Collection.read leftData = .ok leftHeld →
      right.read file = .ok rightData → Collection.read rightData = .ok rightHeld →
      (Extraction.ofFile left file).records = (List.range leftHeld.offsets.length).filterMap
          (fun index => Extraction.recordOf? file (leftHeld.member index)) ∧
        (Extraction.ofFile right file).records = (List.range rightHeld.offsets.length).filterMap
          (fun index => Extraction.recordOf? file (rightHeld.member index)) ∧
        ∀ index, leftHeld.SameMember rightHeld index →
          Extraction.recordOf? file (leftHeld.member index) =
            Extraction.recordOf? file (rightHeld.member index)) := by
  refine ⟨?_, ?_, ?_⟩
  · intro files front back
    simp only [ofFiles, Extraction.records_ofFiles, List.flatMap_append]
  · intro left right damaged paths same
    have kept := Extraction.filter_records_ofFiles left damaged paths
    refine ⟨kept, ?_⟩
    have alike : (Extraction.ofFiles left (paths.filter (· ≠ damaged))).records =
        (Extraction.ofFiles right (paths.filter (· ≠ damaged))).records := by
      apply Extraction.records_ofFiles_congr
      intro path present
      rcases List.mem_filter.mp present with ⟨inside, other⟩
      exact same path inside (of_decide_eq_true other)
    exact kept.trans (alike.trans (Extraction.filter_records_ofFiles right damaged paths).symm)
  · intro left right file leftData rightData leftHeld rightHeld kind isLeft leftParsed isRight
      rightParsed
    refine ⟨?_, ?_, ?_⟩
    · exact Extraction.records_ofFile_collection kind isLeft leftParsed
    · exact Extraction.records_ofFile_collection kind isRight rightParsed
    · intro index same
      exact Extraction.recordOf?_eq_of_sameMember file same

end Catalog

/-! ## Damage around a font -/

namespace Specimen

/-- A file with the name of a font that holds none. -/
def damagedFile : Path :=
  ⟨[0x62, 0x2E, 0x74, 0x74, 0x66]⟩

/-- The file system with a font file that holds no font. -/
def damagedFiles : FileSystem :=
  files.put [[0x77], damagedFile.spelling] (.file names)

/-- The collection whose first member stands where the third one does, instead of beyond the end. -/
def repaired : Bytes :=
  [0x74, 0x74, 0x63, 0x66, 0, 1, 0, 0, 0, 0, 0, 3, 0, 0, 0, 52, 0, 0, 0, 24, 0, 0, 0, 52] ++
    headless ++ whole ++ names ++ List.replicate 54 0

/-- The files after the collection has been repaired in its place. -/
def repairedFiles : FileSystem :=
  files.put [[0x77], file.spelling] (.file repaired)

/-- The members of the collection before the repair. -/
def damagedCollection : Sfnt.Collection :=
  ⟨namesakes, [0x100, 24, 52]⟩

/-- The members of the collection after the repair. -/
def repairedCollection : Sfnt.Collection :=
  ⟨repaired, [52, 24, 52]⟩

/-- The directory of the whole font. -/
def wholeDirectory : Sfnt.Directory :=
  [⟨.naming, 96, 19⟩, ⟨.head, 115, 54⟩]

theorem damagedCollection_member :
    damagedCollection.member 2 = .ok ⟨namesakes, Sfnt.Font.trueTypeVersion, wholeDirectory⟩ := by
  decide +kernel

theorem repairedCollection_member :
    repairedCollection.member 2 = .ok ⟨repaired, Sfnt.Font.trueTypeVersion, wholeDirectory⟩ := by
  decide +kernel

theorem sameMember_two : damagedCollection.SameMember repairedCollection 2 := by
  apply Sfnt.Collection.SameMember.readable
  · rfl
  · rfl
  · decide +kernel
  · intro leftFont rightFont isLeft isRight
    cases damagedCollection_member.symm.trans isLeft
    cases repairedCollection_member.symm.trans isRight
    apply Sfnt.Font.table?_congr
    · rfl
    · decide +kernel

end Specimen

/-- A file that holds no font changes nothing for a collection, and a member that cannot be read
changes nothing for the others. -/
theorem Catalog.isolates_faults_specimen :
    (ofFiles Specimen.damagedFiles [Specimen.damagedFile, Specimen.file]).1.records.filter
        (·.file ≠ Specimen.damagedFile) =
      (ofFiles Specimen.files [Specimen.damagedFile, Specimen.file]).1.records.filter
        (·.file ≠ Specimen.damagedFile) ∧
    (ofFiles Specimen.files ([Specimen.file] ++ [Specimen.damagedFile])).1.records =
      [Specimen.record] ++ (ofFiles Specimen.files [Specimen.damagedFile]).1.records ∧
    Extraction.recordOf? Specimen.file (Specimen.damagedCollection.member 2) =
      Extraction.recordOf? Specimen.file (Specimen.repairedCollection.member 2) := by
  rcases isolates_faults with ⟨parts, files, members⟩
  refine ⟨?_, ?_, ?_⟩
  · refine (files Specimen.damagedFiles Specimen.files Specimen.damagedFile _ ?_).2
    intro path present other
    have isFile : path = Specimen.file := by simpa [other] using present
    subst isFile
    rw [Specimen.read_file]
    exact FileSystem.IsSingleName.read_eq_ok (by decide) rfl
  · rw [parts]
    have isRecords : (ofFiles Specimen.files [Specimen.file]).1.records =
        (Extraction.ofFile Specimen.files Specimen.file).records ++ [] := rfl
    rw [isRecords, Specimen.records_ofFile]
    rfl
  · have kind : Specimen.file.classify = .collection := by decide +kernel
    have isRepaired : Specimen.repairedFiles.read Specimen.file = .ok Specimen.repaired :=
      FileSystem.IsSingleName.read_eq_ok (by decide) rfl
    refine (members Specimen.files Specimen.repairedFiles Specimen.file _ _
      Specimen.damagedCollection Specimen.repairedCollection kind Specimen.read_file ?_
      isRepaired ?_).2.2 2 Specimen.sameMember_two
    · decide +kernel
    · decide +kernel

end FontCatalog
