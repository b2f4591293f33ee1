import FontCatalog.Proofs.FaceTables
import FontCatalog.Proofs.FollowedNames
import FontCatalog.Proofs.Origins
import FontCatalog.Proofs.SfntLayout

/-!
# Reading undoes laying out

A description of a font is laid out as a file of its own or as a member of a collection, and the
records that are extracted from the file say again what the descriptions say. Of the sixteen bits
of a Macintosh style only the seven that are defined as flags come back.
-/

namespace FontCatalog

namespace Sfnt

/-- The tags of the tables that a record depends on. -/
def faceTags : List Tag :=
  [.head, .naming, .os2, .cff, .gcid]

theorem tags_eq : Tag.head = ⟨0x68656164⟩ ∧ Tag.naming = ⟨0x6E616D65⟩ ∧ Tag.os2 = ⟨0x4F532F32⟩ ∧
    Tag.cff = ⟨0x43464620⟩ ∧ Tag.gcid = ⟨0x67636964⟩ := by
  decide +kernel

/-- A font with TrueType outlines, whatever its version: its PostScript name among other names, its
style, its classification, and tables that no record depends on. -/
structure FontDescription where
  version : UInt32
  namesBefore : List NameEntry
  postscriptName : String
  namesAfter : List NameEntry
  macStyle : UInt16
  typeface : Option Typeface
  others : List TaggedTable
  isVersion : version = Font.trueTypeVersion ∨ version = Font.openTypeVersion ∨
    version = Font.appleVersion
  notEmpty : postscriptName ≠ ""
  isTrimmed : Text.IsTrimmed postscriptName.toList
  otherNamesBefore : ∀ entry ∈ namesBefore, entry.nameId ≠ 6
  otherNamesAfter : ∀ entry ∈ namesAfter, entry.nameId ≠ 6
  otherTables : ∀ table ∈ others, table.tag ∉ faceTags

namespace FontDescription

/-- All names of the font, the PostScript name among them. -/
def names (description : FontDescription) : List NameEntry :=
  description.namesBefore ++ .postscript description.postscriptName :: description.namesAfter

/-- All tables of the font. -/
def tables (description : FontDescription) : List TaggedTable :=
  ⟨.head, headBytes description.macStyle⟩ :: ⟨.naming, NameTable.bytesOf description.names⟩ ::
    (description.typeface.toList.map fun typeface => ⟨.os2, typeface.bytes⟩) ++ description.others

/-- The font as it is to be laid out. -/
def plan (description : FontDescription) : FontPlan :=
  ⟨description.version, description.tables⟩

/-- What a catalog knows about the font. -/
def record (description : FontDescription) (file : Path) : FontRecord where
  file := file
  format := .trueType
  postscriptName := description.postscriptName
  cidSystemInfo := none
  weightClass := (description.typeface.map fun typeface =>
    Int32.ofNat typeface.weightClass.toNat).getD (-1)
  familyClass := (description.typeface.map fun typeface => typeface.familyClass.toInt32).getD (-1)
  codePageRange1 := (description.typeface.map Typeface.codePageRange1).getD 0
  codePageRange2 := (description.typeface.map Typeface.codePageRange2).getD 0
  macStyle := Int32.ofNat (description.macStyle &&& 0x007F).toNat
  panose := description.typeface.map Typeface.panose

variable {description : FontDescription} {file before after : Bytes} {path : Path}

/-! ## One font -/

/-- The table under a tag that the record depends on. -/
def faceTable? (description : FontDescription) (tag : Tag) : Option Bytes :=
  if tag = .head then some (headBytes description.macStyle)
  else if tag = .naming then some (NameTable.bytesOf description.names)
  else if tag = .os2 then description.typeface.map Typeface.bytes
  else none

theorem mem_tables_iff {tag : Tag} {data : Bytes} (isFace : tag ∈ faceTags) :
    ⟨tag, data⟩ ∈ description.tables ↔ description.faceTable? tag = some data := by
  have notOther : ⟨tag, data⟩ ∉ description.others := fun isOther =>
    description.otherTables _ isOther isFace
  simp only [tables, List.cons_append, List.mem_cons, List.mem_append, notOther, or_false,
    List.mem_map, Option.mem_toList, TaggedTable.mk.injEq, faceTable?]
  simp only [faceTags, List.mem_cons, List.not_mem_nil, or_false] at isFace
  rcases isFace with rfl | rfl | rfl | rfl | rfl
  · simp [tags_eq, eq_comm]
  · simp [tags_eq, eq_comm]
  · simp [tags_eq]
  · simp [tags_eq]
  · simp [tags_eq]

theorem table?_fontIn_eq
    (isFile : file = before ++ (description.plan.bytesAt before.length ++ after))
    {tag : Tag} (isFace : tag ∈ faceTags) :
    (description.plan.fontIn file before.length).table? tag = description.faceTable? tag := by
  rw [FontPlan.table?_fontIn isFile]
  cases found : description.plan.inOrder.find? fun table => table.tag == tag with
  | some table =>
      have isTag : table.tag = tag := by
        simpa using List.find?_some found
      subst isTag
      have isTable := FontPlan.mem_inOrder.mp (List.mem_of_find?_eq_some found)
      exact ((mem_tables_iff isFace).mp isTable).symm
  | none =>
      cases sought : description.faceTable? tag with
      | none => rfl
      | some data =>
          have isTable : ⟨tag, data⟩ ∈ description.plan.inOrder :=
            FontPlan.mem_inOrder.mpr ((mem_tables_iff isFace).mpr sought)
          have missing := List.find?_eq_none.mp found _ isTable
          simp at missing

/-- The font has the tables of a description that a record depends on, and not those that it must
not have. -/
structure Stands (description : FontDescription) (font : Font) : Prop where
  head : font.table? .head = some (headBytes description.macStyle)
  naming : font.table? .naming = some (NameTable.bytesOf description.names)
  os2 : font.table? .os2 = description.typeface.map Typeface.bytes
  cff : font.table? .cff = none
  gcid : font.table? .gcid = none

/-- A font that was laid out has its tables, wherever it stands. -/
theorem stands_fontIn
    (isFile : file = before ++ (description.plan.bytesAt before.length ++ after)) :
    description.Stands (description.plan.fontIn file before.length) where
  head := (table?_fontIn_eq isFile (by simp [faceTags])).trans (by simp [faceTable?])
  naming := (table?_fontIn_eq isFile (by simp [faceTags])).trans (by simp [faceTable?, tags_eq])
  os2 := (table?_fontIn_eq isFile (by simp [faceTags])).trans (by simp [faceTable?, tags_eq])
  cff := (table?_fontIn_eq isFile (by simp [faceTags])).trans (by simp [faceTable?, tags_eq])
  gcid := (table?_fontIn_eq isFile (by simp [faceTags])).trans (by simp [faceTable?, tags_eq])

namespace Stands

variable {font : Font}

theorem macStyle?_eq (stands : description.Stands font) :
    font.macStyle? = some (description.macStyle &&& 0x007F) :=
  macStyle?_of_table? stands.head

theorem nameTable?_eq (stands : description.Stands font)
    (fits : NameTable.Fits description.names) :
    font.nameTable? = some ⟨NameTable.recordsFrom 0 description.names,
      description.names.flatMap NameEntry.stored⟩ := by
  simp only [Font.nameTable?, stands.naming, Option.bind_eq_bind, Option.bind_some,
    NameTable.ofBytes?_bytesOf fits]

theorem postscriptName_eq (stands : description.Stands font)
    (fits : NameTable.Fits description.names) :
    font.name? .postscript = some description.postscriptName := by
  simp only [Font.name?, stands.nameTable?_eq fits, Option.bind_eq_bind, Option.bind_some]
  exact NameTable.name?_of_entries description.notEmpty description.isTrimmed
    description.otherNamesBefore description.otherNamesAfter

theorem os2?_eq (stands : description.Stands font) :
    font.os2? = description.typeface.map Typeface.os2 := by
  have isOs2 := stands.os2
  cases isTypeface : description.typeface with
  | none =>
      rw [isTypeface] at isOs2
      simp only [Font.os2?, isOs2, Option.map_none, Option.bind_eq_bind, Option.bind_none]
  | some typeface =>
      rw [isTypeface] at isOs2
      exact typeface.os2?_of_table? isOs2

/-- Without outlines in the compact font format and without a table of a character collection, the
version does not matter. -/
theorem formatAndCollection_eq (stands : description.Stands font) :
    font.face.formatAndCollection = .ok (.trueType, none) := by
  have noOutlines : font.outlines = .ok none := by
    simp only [Font.outlines, stands.cff]
  simp only [Face.formatAndCollection, Font.face, noOutlines, ite_self, stands.gcid]

theorem describes (stands : description.Stands font) (fits : NameTable.Fits description.names)
    (path : Path) : font.Describes path (description.record path) := by
  have isRecord : font.face.record path description.postscriptName
      (description.macStyle &&& 0x007F) .trueType none = description.record path := by
    simp only [Face.record, Font.face, stands.os2?_eq, record]
    cases description.typeface <;> rfl
  have examined : font.face.examine path =
      .ok (.described (description.record path) (font.name? .family) (font.name? .subfamily)) := by
    have hasNames : font.face.hasNamingTable = true := by
      simp only [Font.face, stands.nameTable?_eq fits, Option.isSome_some]
    have hasName : font.face.postscriptName = some description.postscriptName :=
      stands.postscriptName_eq fits
    have hasStyle : font.face.macStyle = some (description.macStyle &&& 0x007F) :=
      stands.macStyle?_eq
    simp only [Face.examine, hasNames, if_true, hasName, hasStyle, stands.formatAndCollection_eq,
      isRecord]
    rfl
  refine ⟨font.name? .family, font.name? .subfamily, ?_⟩
  rw [Font.examine, examined]
  rfl

end Stands

end FontDescription

end Sfnt

/-! ## Extraction -/

namespace Extraction

variable {file : Path} {members : List (Except Sfnt.ReadFault Sfnt.Font)}
  {records : List FontRecord}

theorem records_ofMember {font : Sfnt.Font} {record : FontRecord} (index : Nat)
    (describes : font.Describes file record) :
    (ofMember file index (.ok font)).records = [record] := by
  rcases describes with ⟨family, subfamily, examined⟩
  have isMember : (do
      let read ← during (.parsingMember index) .sfnt (.ok font : Except Sfnt.ReadFault Sfnt.Font)
      read.examine file) = .ok (.described record family subfamily) := examined
  simp only [ofMember, isMember]
  rfl

/-- Members that are all described contribute their records in order. -/
theorem records_concat_of_describes (start : Nat) (sameLength : members.length = records.length)
    (describes : ∀ (place : Nat) (member : Except Sfnt.ReadFault Sfnt.Font) (record : FontRecord),
      members[place]? = some member → records[place]? = some record →
        ∃ font : Sfnt.Font, member = .ok font ∧ font.Describes file record) :
    (concat ((members.zipIdx start).map fun (member, index) =>
      ofMember file index member)).records = records := by
  -- The index of a member counts only in what is reported, so it can start anywhere.
  induction members generalizing records start with
  | nil =>
      cases records with
      | nil => rfl
      | cons record others => cases sameLength
  | cons member rest ih =>
      cases records with
      | nil => cases sameLength
      | cons record others =>
          rcases describes 0 member record rfl rfl with ⟨font, rfl, isDescribed⟩
          have later := ih (start + 1) (Nat.succ.inj sameLength) fun place other otherRecord
            isOther isRecord => describes (place + 1) other otherRecord isOther isRecord
          show (ofMember file start (.ok font)).records ++
            (concat ((rest.zipIdx (start + 1)).map fun (member, index) =>
              ofMember file index member)).records = record :: others
          rw [records_ofMember start isDescribed, later]
          rfl

end Extraction

namespace Sfnt.FontDescription

variable {descriptions : List FontDescription} {description : FontDescription}
  {file before after : Bytes}

/-- A font that was laid out is read from where it stands and described by its record. -/
theorem exists_readAt_describes
    (isFile : file = before ++ (description.plan.bytesAt before.length ++ after))
    (fits : description.plan.Fits before.length) (namesFit : NameTable.Fits description.names)
    (path : Path) :
    ∃ font, Font.readAt file before.length = .ok font ∧
      font.Describes path (description.record path) :=
  ⟨_, FontPlan.readAt_of_eq description.isVersion fits isFile,
    (stands_fontIn isFile).describes namesFit path⟩

theorem length_members (fits : Collection.Fits (descriptions.map plan)) {collection : Collection}
    (isRead : Collection.read (Collection.bytesOf (descriptions.map plan)) = .ok collection) :
    collection.members.length = descriptions.length := by
  cases (Collection.read_bytesOf fits).symm.trans isRead
  simp [Collection.members, Collection.placed]

/-- Every member of a collection is described by its record. -/
theorem exists_member_describes (fits : Collection.Fits (descriptions.map plan))
    (namesFit : ∀ description ∈ descriptions, NameTable.Fits description.names)
    {collection : Collection}
    (isRead : Collection.read (Collection.bytesOf (descriptions.map plan)) = .ok collection)
    {place : Nat} (isDescription : descriptions[place]? = some description)
    {member : Except ReadFault Font} (isMember : collection.members[place]? = some member)
    (path : Path) : ∃ font, member = .ok font ∧ font.Describes path (description.record path) := by
  cases (Collection.read_bytesOf fits).symm.trans isRead
  simp only [Collection.members, List.map_map, List.getElem?_map, Option.map_eq_some_iff]
    at isMember
  rcases isMember with ⟨⟨start, laidOut⟩, isPlaced, rfl⟩
  have isPlan : laidOut = description.plan := by
    have plans := congrArg (·[place]?) (Collection.map_snd_placedFrom
      (12 + 4 * (descriptions.map plan).length) (descriptions.map plan))
    simp only [List.getElem?_map, isDescription, Option.map_some] at plans
    rw [← Collection.placed, isPlaced, Option.map_some] at plans
    exact Option.some.inj plans
  subst isPlan
  have inside := List.mem_of_getElem? isPlaced
  rcases Collection.exists_split_bytesOf inside with ⟨before, after, isFile, isStart⟩
  dsimp only at isFile isStart
  subst isStart
  exact exists_readAt_describes isFile (fits _ inside).2
    (namesFit description (List.mem_of_getElem? isDescription)) path

/-! ## Main statement -/

theorem records_collection {files : FileSystem} {path : Path} (kind : path.classify = .collection)
    (isData : files.read path = .ok (Collection.bytesOf (descriptions.map plan)))
    (fits : Collection.Fits (descriptions.map plan))
    (namesFit : ∀ description ∈ descriptions, NameTable.Fits description.names) :
    (Extraction.ofFile files path).records =
      descriptions.map fun description => description.record path := by
  have isRead := Collection.read_bytesOf fits
  generalize isCollection : (⟨Collection.bytesOf (descriptions.map plan),
    (Collection.placed (descriptions.map plan)).map Prod.fst⟩ : Collection) = collection at isRead
  have extracted : Extraction.collection files path =
      .ok (Extraction.ofCollection path collection) := by
    simp only [Extraction.collection, isData, during, bind, Except.bind, isRead]
    rfl
  simp only [Extraction.ofFile, kind, extracted, Extraction.orReport, Extraction.ofCollection]
  apply Extraction.records_concat_of_describes
  · rw [length_members fits isRead, List.length_map]
  · intro place member record isMember isRecord
    rw [List.getElem?_map, Option.map_eq_some_iff] at isRecord
    rcases isRecord with ⟨description, isDescription, rfl⟩
    exact exists_member_describes fits namesFit isRead isDescription isMember path

theorem records_simple {files : FileSystem} {path : Path} (kind : path.classify = .simple)
    (isData : files.read path = .ok (description.plan.bytesAt 0))
    (fits : description.plan.Fits 0) (namesFit : NameTable.Fits description.names) :
    (Extraction.ofFile files path).records = [description.record path] := by
  have isFile : description.plan.bytesAt 0 =
      [] ++ (description.plan.bytesAt ([] : Bytes).length ++ []) := by
    simp
  rcases exists_readAt_describes isFile fits namesFit path with
    ⟨font, isFont, family, subfamily, examined⟩
  have isRead : Font.read (description.plan.bytesAt 0) = .ok font := isFont
  have extracted : Extraction.simple files path = .ok (Extraction.ofExamination path
      (.described (description.record path) family subfamily)) := by
    simp only [Extraction.simple, isData, during, isRead, examined, bind, Except.bind]
    rfl
  simp only [Extraction.ofFile, kind, extracted, Extraction.orReport]
  rfl

/-- Fonts that are laid out as a collection, or one that is laid out as a file of its own, are
extracted as the records of their descriptions, in order. -/
theorem records_of_laid_out :
    (∀ (files : FileSystem) (path : Path) (descriptions : List FontDescription),
      path.classify = .collection →
      files.read path = .ok (Collection.bytesOf (descriptions.map plan)) →
      Collection.Fits (descriptions.map plan) →
      (∀ description ∈ descriptions, NameTable.Fits description.names) →
        (Extraction.ofFile files path).records =
          descriptions.map fun description => description.record path) ∧
      ∀ (files : FileSystem) (path : Path) (description : FontDescription),
        path.classify = .simple →
        files.read path = .ok (description.plan.bytesAt 0) →
        description.plan.Fits 0 → NameTable.Fits description.names →
          (Extraction.ofFile files path).records = [description.record path] :=
  ⟨fun _ _ _ kind isData fits namesFit => records_collection kind isData fits namesFit,
    fun _ _ _ kind isData fits namesFit => records_simple kind isData fits namesFit⟩

/-! ## Two fonts

Laid out together as a collection, and the second also as a file of its own. -/

namespace Specimen

/-- A font without a classification, with a family name for the Macintosh and a table of its own. -/
def plain : FontDescription where
  version := Font.appleVersion
  namesBefore := [⟨1, 0, 0, 1, "Clef"⟩]
  postscriptName := "Clef𝄞"
  namesAfter := []
  macStyle := 0x0002
  typeface := none
  others := [⟨Tag.ofName "zero", []⟩]
  isVersion := Or.inr (Or.inr rfl)
  notEmpty := by decide
  isTrimmed := by decide
  otherNamesBefore := by decide
  otherNamesAfter := by decide
  otherTables := by decide +kernel

/-- A font with a reserved bit in its style. -/
def reserved : FontDescription where
  version := Font.openTypeVersion
  namesBefore := []
  postscriptName := "Bar"
  namesAfter := [⟨3, 1, 0x0409, 4, "Bar Regular"⟩]
  macStyle := 0x0080
  typeface := some ⟨400, -2, 1, 0x80000000, ⟨2, 11, 5, 2, 4, 5, 4, 2, 2, 4⟩⟩
  others := []
  isVersion := Or.inr (Or.inl rfl)
  notEmpty := by decide
  isTrimmed := by decide
  otherNamesBefore := by decide
  otherNamesAfter := by decide
  otherTables := by decide

/-- A file with the name of a collection. -/
def collectionFile : Path :=
  Path.ofString "a.ttc"

/-- A file with the name of a single font. -/
def singleFile : Path :=
  Path.ofString "a.ttf"

/-- The working directory with one file. -/
def folder (file : Path) (data : Bytes) : FileSystem :=
  (FileSystem.withDirectory [0x77]).put [[0x77], file.spelling] (.file data)

/-- Both fonts in one file. -/
def together : FileSystem :=
  folder collectionFile (Collection.bytesOf ([plain, reserved].map plan))

/-- The second font in a file of its own. -/
def alone : FileSystem :=
  folder singleFile (reserved.plan.bytesAt 0)

theorem classify_collectionFile : collectionFile.classify = .collection := by
  decide +kernel

theorem classify_singleFile : singleFile.classify = .simple := by
  decide +kernel

-- The bytes stay a variable, since finding the file does not depend on them.
theorem read_collectionFile (data : Bytes) :
    (folder collectionFile data).read collectionFile = .ok data :=
  FileSystem.IsSingleName.read_eq_ok (by decide) rfl

theorem read_singleFile (data : Bytes) : (folder singleFile data).read singleFile = .ok data :=
  FileSystem.IsSingleName.read_eq_ok (by decide) rfl

theorem fits_together : Collection.Fits ([plain, reserved].map plan) :=
  Collection.fits_of_size (by decide +kernel) (by decide +kernel)

theorem fits_reserved : reserved.plan.Fits 0 :=
  FontPlan.fits_of_size (by decide +kernel) (by decide +kernel)

theorem namesFit_plain : NameTable.Fits plain.names :=
  ⟨by decide, by decide +kernel⟩

theorem namesFit_reserved : NameTable.Fits reserved.names :=
  ⟨by decide, by decide +kernel⟩

theorem namesFit_together :
    ∀ description ∈ [plain, reserved], NameTable.Fits description.names := by
  simp [namesFit_plain, namesFit_reserved]

end Specimen

theorem records_of_specimens :
    Specimen.collectionFile.classify = .collection ∧
      (Extraction.ofFile Specimen.together Specimen.collectionFile).records =
        [Specimen.plain.record Specimen.collectionFile,
          Specimen.reserved.record Specimen.collectionFile] ∧
      Specimen.singleFile.classify = .simple ∧
      (Extraction.ofFile Specimen.alone Specimen.singleFile).records =
        [Specimen.reserved.record Specimen.singleFile] := by
  have isCollection := Specimen.classify_collectionFile
  have isSimple := Specimen.classify_singleFile
  rcases records_of_laid_out with ⟨ofCollection, ofSingle⟩
  refine ⟨isCollection, ?_, isSimple, ?_⟩
  · exact ofCollection Specimen.together Specimen.collectionFile _ isCollection
      (Specimen.read_collectionFile _) Specimen.fits_together Specimen.namesFit_together
  · exact ofSingle Specimen.alone Specimen.singleFile _ isSimple (Specimen.read_singleFile _)
      Specimen.fits_reserved Specimen.namesFit_reserved

/-- A reserved bit of a Macintosh style does not come back. -/
theorem records_without_reserved_bit :
    Specimen.singleFile.classify = .simple ∧
      Specimen.alone.read Specimen.singleFile = .ok (Specimen.reserved.plan.bytesAt 0) ∧
      Specimen.reserved.plan.Fits 0 ∧ NameTable.Fits Specimen.reserved.names ∧
      (Extraction.ofFile Specimen.alone Specimen.singleFile).records ≠
        [{ Specimen.reserved.record Specimen.singleFile with
          macStyle := Int32.ofNat Specimen.reserved.macStyle.toNat }] := by
  have isSimple := Specimen.classify_singleFile
  have isData : Specimen.alone.read Specimen.singleFile = .ok (Specimen.reserved.plan.bytesAt 0) :=
    Specimen.read_singleFile _
  refine ⟨isSimple, isData, Specimen.fits_reserved, Specimen.namesFit_reserved, ?_⟩
  rw [records_simple isSimple isData Specimen.fits_reserved Specimen.namesFit_reserved]
  decide +kernel

end Sfnt.FontDescription

end FontCatalog
