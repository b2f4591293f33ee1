import FontCatalog.Proofs.ByteStrings
import FontCatalog.Proofs.FaultIsolation
import Mathlib.Data.List.Find
import Mathlib.Data.List.Nodup

/-!
# The order of a directory

A font is found out about through its directory, which is searched in one way if its tags increase
and in another way if they do not. The order of the entries does not matter all the same: a font
whose entries have been put into another order has the same tables, and everything that is read from
its tables is the same.
-/

namespace FontCatalog

namespace Sfnt

/-! ## Directories -/

namespace Directory

variable {directory other : Directory} {tag : Tag}

/-- Among entries with different tags, the order does not decide which one is found. -/
theorem find?_eq_of_perm (perm : directory.Perm other)
    (distinct : (directory.map TableEntry.tag).Nodup) :
    (directory.find? fun entry => entry.tag == tag) =
      other.find? fun entry => entry.tag == tag := by
  apply List.find?_eq_find?_of_perm perm
  rintro left ⟨isLeft, leftTag⟩ right ⟨isRight, rightTag⟩
  rw [beq_iff_eq] at leftTag rightTag
  exact List.inj_on_of_nodup_map distinct isLeft isRight (leftTag.trans rightTag.symm)

theorem lookup?_eq_of_perm (perm : directory.Perm other)
    (distinct : (directory.map TableEntry.tag).Nodup) :
    directory.lookup? tag = other.lookup? tag := by
  rw [lookup?_eq_find?, lookup?_eq_find?, find?_eq_of_perm perm distinct]

end Directory

/-! ## Files -/

/-- A file that starts with a directory of which all entries are there. -/
structure DirectoryFile where
  header : Bytes
  entries : List Bytes
  rest : Bytes
  length_header : header.length = 12
  length_entry : ∀ entry ∈ entries, entry.length = 16
  count_eq : Bytes.bigEndian ((header.drop 4).take 2) = entries.length

namespace DirectoryFile

variable {file : DirectoryFile} {entries : List Bytes} {place : Nat}

/-- The bytes of the file. -/
def bytes (file : DirectoryFile) : Bytes :=
  file.header ++ (file.entries.flatten ++ file.rest)

/-- The version that the header declares. -/
def version (file : DirectoryFile) : UInt32 :=
  UInt32.ofNat (Bytes.bigEndian (file.header.take 4))

/-- The entries that the bytes of the directory spell. -/
def directory (file : DirectoryFile) : Directory :=
  file.entries.map TableEntry.ofBytes

/-- The font that the file holds, if its version is one of a font. -/
def font (file : DirectoryFile) : Font :=
  ⟨file.bytes, file.version, file.directory⟩

/-- The file with its entries in another order, each of them in a place of another one. -/
def reorder (file : DirectoryFile) (perm : file.entries.Perm entries) : DirectoryFile where
  header := file.header
  entries := entries
  rest := file.rest
  length_header := file.length_header
  length_entry := fun entry isEntry => file.length_entry entry (perm.mem_iff.mpr isEntry)
  count_eq := file.count_eq.trans perm.length_eq

/-- No two entries have the same tag. -/
def HasDistinctTags (file : DirectoryFile) : Prop :=
  (file.directory.map TableEntry.tag).Nodup

/-- No table that is found has a byte among the entries of the directory. -/
def IsApart (file : DirectoryFile) : Prop :=
  ∀ entry ∈ file.directory, entry.offset ≠ 0 → entry.offset + entry.length ≤ file.bytes.length →
    ∀ place, entry.offset ≤ place → place < entry.offset + entry.length →
      place < 12 ∨ 12 + 16 * file.entries.length ≤ place

/-- Every file whose entries all fit is such a file. -/
theorem exists_bytes_eq {data : Bytes} (hasHeader : 12 ≤ data.length)
    (fits : 12 + 16 * Bytes.bigEndian ((data.drop 4).take 2) ≤ data.length) :
    ∃ file : DirectoryFile, file.bytes = data := by
  generalize isCount : Bytes.bigEndian ((data.drop 4).take 2) = count at fits
  refine ⟨⟨data.take 12, Bytes.chunks 16 count (data.drop 12), data.drop (12 + 16 * count), ?_, ?_,
    ?_⟩, ?_⟩
  · rw [List.length_take]
    omega
  · intro entry isEntry
    apply Bytes.length_of_mem_chunks _ isEntry
    rw [List.length_drop]
    omega
  · rw [Bytes.length_chunks, ← isCount, List.drop_take, List.take_take]
    rfl
  · rw [bytes, Bytes.flatten_chunks, ← List.drop_drop, List.take_append_drop,
      List.take_append_drop]

theorem length_flatten (file : DirectoryFile) :
    file.entries.flatten.length = 16 * file.entries.length := by
  have isLength : (file.entries.flatMap id).length = 16 * file.entries.length :=
    Bytes.length_flatMap_of_uniform file.entries file.length_entry
  rwa [List.flatMap_id] at isLength

theorem table_bytes (file : DirectoryFile) :
    file.bytes.table 12 16 file.entries.length = file.entries := by
  have isBytes : file.bytes = file.header ++ (file.entries.flatMap id ++ file.rest) := by
    rw [List.flatMap_id]
    rfl
  have isTable := Bytes.table_of_eq file.header file.rest isBytes file.length_header
    file.length_entry
  rwa [List.map_id] at isTable

theorem read_bytes (file : DirectoryFile) :
    Font.read file.bytes =
      if file.version = Font.trueTypeVersion ∨ file.version = Font.openTypeVersion ∨
          file.version = Font.appleVersion then .ok file.font
      else .error (.badVersion file.version) := by
  have isHeader : file.bytes.slice? 0 12 = some file.header :=
    Bytes.slice?_of_eq [] (file.entries.flatten ++ file.rest) rfl rfl file.length_header
  simp only [Font.read, Font.readAt, List.drop_zero, isHeader, file.count_eq, table_bytes]
  rfl

theorem length_bytes_reorder (perm : file.entries.Perm entries) :
    (file.reorder perm).bytes.length = file.bytes.length := by
  simp only [bytes, List.length_append, length_flatten]
  simp only [reorder, perm.length_eq]

/-- The bytes before and behind the entries stay where they are. -/
theorem getElem?_bytes_reorder (perm : file.entries.Perm entries)
    (outside : place < 12 ∨ 12 + 16 * file.entries.length ≤ place) :
    (file.reorder perm).bytes[place]? = file.bytes[place]? := by
  have length_header := file.length_header
  have length_entries := file.length_flatten
  have length_reordered := (file.reorder perm).length_flatten
  have sameCount : entries.length = file.entries.length := perm.length_eq.symm
  simp only [bytes, reorder] at length_reordered ⊢
  rcases outside with inHeader | inRest
  · rw [List.getElem?_append_left (by omega), List.getElem?_append_left (by omega)]
  · rw [List.getElem?_append_right (by omega), List.getElem?_append_right (by omega),
      List.getElem?_append_right (by omega), List.getElem?_append_right (by omega),
      length_reordered, length_entries, sameCount]

theorem table?_reorder (perm : file.entries.Perm entries) (distinct : file.HasDistinctTags)
    (apart : file.IsApart) (tag : Tag) :
    file.font.table? tag = (file.reorder perm).font.table? tag := by
  have sameLookup : file.directory.lookup? tag = (file.reorder perm).directory.lookup? tag :=
    Directory.lookup?_eq_of_perm (perm.map TableEntry.ofBytes) distinct
  simp only [Font.table?, font, ← sameLookup, Directory.lookup?_eq_find?, Option.bind_eq_bind]
  cases found : file.directory.find? fun entry => entry.tag == tag with
  | none => rfl
  | some entry =>
      have isEntry := List.mem_of_find?_eq_some found
      simp only [Option.bind_some]
      split
      · rfl
      · rename_i notAbsent
        have sameLength := length_bytes_reorder perm
        by_cases fits : entry.offset + entry.length ≤ file.bytes.length
        · apply Bytes.slice?_congr sameLength.symm
          intro place starts ends
          exact (getElem?_bytes_reorder perm
            (apart entry isEntry notAbsent fits place starts ends)).symm
        · simp [Bytes.slice?, sameLength, fits]

end DirectoryFile

/-! ## Fonts -/

/-- Two fonts of which everything that can be found out is the same. -/
structure Font.SameContent (left right : Font) : Prop where
  lookup?_eq : ∀ tag, left.directory.lookup? tag = right.directory.lookup? tag
  bisected?_eq : left.directory.increasesAbove 0 = true → ∀ tag,
    left.directory.bisected? tag = right.directory.find? fun entry => entry.tag == tag
  table?_eq : ∀ tag, left.table? tag = right.table? tag
  isOpenType_eq : left.isOpenType = right.isOpenType
  nameTable?_eq : left.nameTable? = right.nameTable?
  name?_eq : ∀ nameId, left.name? nameId = right.name? nameId
  os2?_eq : left.os2? = right.os2?
  macStyle?_eq : left.macStyle? = right.macStyle?
  outlines_eq : left.outlines = right.outlines
  face_eq : left.face = right.face
  examine_eq : ∀ path, left.examine path = right.examine path

/-- Two readings that fail in the same way or give fonts with the same content. -/
inductive Font.SameReading : Except ReadFault Font → Except ReadFault Font → Prop
  | fails (fault : ReadFault) : SameReading (.error fault) (.error fault)
  | reads {left right : Font} (same : left.SameContent right) : SameReading (.ok left) (.ok right)

namespace DirectoryFile

variable {file : DirectoryFile} {entries : List Bytes}

theorem sameContent_reorder (perm : file.entries.Perm entries) (distinct : file.HasDistinctTags)
    (apart : file.IsApart) : file.font.SameContent (file.reorder perm).font := by
  have permDirectory : file.directory.Perm (file.reorder perm).directory :=
    perm.map TableEntry.ofBytes
  have sameTables := table?_reorder perm distinct apart
  have sameFace : file.font.face = (file.reorder perm).font.face :=
    Font.face_congr rfl sameTables
  constructor
  · intro tag
    exact Directory.lookup?_eq_of_perm permDirectory distinct
  · intro increases tag
    rw [Directory.bisected?_eq_find? (Directory.pairwise_of_increasesAbove increases).1]
    exact Directory.find?_eq_of_perm permDirectory distinct
  · exact sameTables
  · rfl
  · simp only [Font.nameTable?, sameTables]
  · simp only [Font.name?, Font.nameTable?, sameTables, implies_true]
  · simp only [Font.os2?, sameTables]
  · simp only [Font.macStyle?, Font.headTable?, sameTables]
  · simp only [Font.outlines, sameTables]
  · exact sameFace
  · intro path
    rw [Font.examine, Font.examine, sameFace]

theorem sameReading_reorder (perm : file.entries.Perm entries) (distinct : file.HasDistinctTags)
    (apart : file.IsApart) :
    Font.SameReading (Font.read file.bytes) (Font.read (file.reorder perm).bytes) := by
  have sameVersion : (file.reorder perm).version = file.version := rfl
  rw [read_bytes, read_bytes, sameVersion]
  split
  · exact .reads (sameContent_reorder perm distinct apart)
  · exact .fails _

end DirectoryFile

theorem Font.SameReading.simple_eq {left right : FileSystem} {path : Path}
    {leftData rightData : Bytes} (same : SameReading (Font.read leftData) (Font.read rightData))
    (isLeft : left.read path = .ok leftData) (isRight : right.read path = .ok rightData) :
    Extraction.simple left path = Extraction.simple right path := by
  simp only [Extraction.simple, isLeft, isRight, during, bind, Except.bind]
  generalize Font.read leftData = leftFont at same
  generalize Font.read rightData = rightFont at same
  cases same with
  | fails fault => rfl
  | reads same => simp only [same.examine_eq]

/-- The order of the entries of a directory makes no difference to the font, and none to what is
extracted from the file and reported about it. -/
theorem DirectoryFile.order_irrelevant (file : DirectoryFile) {entries : List Bytes}
    (perm : file.entries.Perm entries) (distinct : file.HasDistinctTags) (apart : file.IsApart) :
    Font.SameReading (Font.read file.bytes) (Font.read (file.reorder perm).bytes) ∧
      ∀ (left right : FileSystem) (path : Path), path.classify = .simple →
        left.read path = .ok file.bytes → right.read path = .ok (file.reorder perm).bytes →
          Extraction.ofFile left path = Extraction.ofFile right path := by
  have same := sameReading_reorder perm distinct apart
  refine ⟨same, ?_⟩
  intro left right path isSimple isLeft isRight
  simp only [Extraction.ofFile, isSimple, same.simple_eq isLeft isRight]

namespace DirectoryFile

/-- The sixteen bytes of an entry. -/
def entryBytes (tag : Tag) (offset length : UInt8) : Bytes :=
  Bytes.bigEndianOf 4 tag.code.toNat ++ [0, 0, 0, 0, 0, 0, 0, offset, 0, 0, 0, length]

/-- A file whose tags increase, with a header at place 0, a naming table of six bytes, and a
classification that runs past the end. -/
def specimen : DirectoryFile where
  header := [0, 1, 0, 0, 0, 3, 0, 0, 0, 0, 0, 0]
  entries := [entryBytes .os2 60 78, entryBytes .head 0 54, entryBytes .naming 60 6]
  rest := [0, 0, 0, 0, 0, 6]
  length_header := rfl
  length_entry := by decide
  count_eq := by decide

/-- The entries of the file, from the last to the first. -/
def specimenEntries : List Bytes :=
  [entryBytes .naming 60 6, entryBytes .head 0 54, entryBytes .os2 60 78]

theorem perm_specimenEntries : specimen.entries.Perm specimenEntries := by
  decide

theorem order_irrelevant_specimen :
    specimen.HasDistinctTags ∧ specimen.IsApart ∧
      specimen.directory.increasesAbove 0 = true ∧
      (specimen.reorder perm_specimenEntries).directory.increasesAbove 0 = false ∧
      Font.SameReading (Font.read specimen.bytes)
        (Font.read (specimen.reorder perm_specimenEntries).bytes) ∧
      specimen.font.table? .naming = some [0, 0, 0, 0, 0, 6] := by
  have distinct : specimen.HasDistinctTags := by
    simp only [HasDistinctTags]
    decide
  have apart : specimen.IsApart := by
    intro entry isEntry notAbsent fits place starts ends
    right
    have isNaming : ∀ entry ∈ specimen.directory, entry.offset ≠ 0 →
        entry.offset + entry.length ≤ specimen.bytes.length → entry.offset = 60 := by decide
    have isStart := isNaming entry isEntry notAbsent fits
    have isEnd : 12 + 16 * specimen.entries.length = 60 := rfl
    omega
  have isTable : specimen.font.table? .naming = some [0, 0, 0, 0, 0, 6] := by
    simp only [Font.table?, Directory.lookup?_eq_find?]
    decide
  exact ⟨distinct, apart, by decide, by decide,
    (order_irrelevant specimen perm_specimenEntries distinct apart).1, isTable⟩

end DirectoryFile

end Sfnt

end FontCatalog
