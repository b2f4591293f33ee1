import FontCatalog.Proofs.MemberChoice

/-!
# Looking up a member of a collection

Loading a TrueType font from a collection succeeds exactly when some readable member has the name
that is asked for, whether or not a scan ever gave that name. The program stands for the first such
member, and what is asked of the program later is answered from the tables of that member. Each
unreadable member before it is reported once, and all of them when no member has the name: a member
that cannot be read never ends the search.
-/

namespace FontCatalog

open Sfnt

/-- The event for a member that cannot be read. -/
def unreadable? (file : Path) : Except ReadFault Font → Option Event
  | .ok _ => none
  | .error fault => some (.memberUnreadable file fault)

/-- The search reports the unreadable members before the one it ends at. -/
theorem snd_findNamed (file : Path) (name : String) (start : Nat)
    (members : List (Except ReadFault Font)) :
    (findNamed file name start members).2 =
      (members.take (members.findIdx (isNamed name))).filterMap (unreadable? file) := by
  induction members generalizing start with
  | nil => rfl
  | cons member rest ih =>
      cases member with
      | error fault => simp [findNamed, List.findIdx_cons, isNamed, unreadable?, ih]
      | ok font =>
          by_cases named : font.postscriptName? = some name
          · have found : font.name? .postscript = some name := named
            simp [findNamed, List.findIdx_cons, isNamed, named, found]
          · have missed : ¬font.name? .postscript = some name := named
            simp [findNamed, List.findIdx_cons, isNamed, named, missed, List.filterMap_cons,
              unreadable?, ih]

namespace Sfnt.Collection

variable {collection : Collection} {file : Path} {name : String} {index : Nat} {font : Font}

/-- Some readable member has the name. -/
def HasNamed (collection : Collection) (name : String) : Prop :=
  ∃ index font, collection.member index = .ok font ∧ font.postscriptName? = some name

theorem find_of_firstNamed (first : collection.FirstNamed name index font) (file : Path) :
    collection.find file name =
      (some index, (collection.members.take index).filterMap (unreadable? file)) := by
  have found : collection.members.findIdx? (isNamed name) = some index :=
    findIdx?_isNamed_eq_some_iff.mpr ⟨font, first⟩
  have isIndex := (List.findIdx?_eq_some_iff_findIdx_eq.mp found).2
  apply Prod.ext
  · rw [fst_find, found]
  · rw [find, snd_findNamed, isIndex]

theorem find_of_not_hasNamed (absent : ¬collection.HasNamed name) (file : Path) :
    collection.find file name = (none, collection.members.filterMap (unreadable? file)) := by
  have missed : ∀ member ∈ collection.members, isNamed name member = false := by
    intro member isMember
    rw [Bool.eq_false_iff]
    intro named
    rcases isNamed_iff.mp named with ⟨font, rfl, isName⟩
    rcases mem_members_iff.mp isMember with ⟨index, readable⟩
    exact absent ⟨index, font, readable, isName⟩
  have isLength := List.findIdx_eq_length.mpr missed
  apply Prod.ext
  · rw [fst_find, List.findIdx?_eq_none_iff.mpr missed]
  · rw [find, snd_findNamed, isLength, List.take_length]

end Sfnt.Collection

/-! ## Loading -/

namespace Loading

variable {files : FileSystem} {file : Path} {data : Bytes} {collection : Collection}
  {name : String} {index : Nat} {font : Font}

/-- Loading ended with a program for the member at a place, which is the first one with the name:
the unreadable members before it were reported, and the program answers from its tables. -/
structure FoundAt (loading : Loading) (collection : Collection) (file : Path) (name : String)
    (program : SfntProgram) (index : Nat) (font : Font) : Prop where
  result_eq : loading.result = .ok (.trueType program)
  events_eq : loading.events = (collection.members.take index).filterMap (unreadable? file)
  member?_eq : program.member? = some index
  first : collection.FirstNamed name index font
  font_eq : program.font = .ok font
  unitsPerEm_eq : program.unitsPerEm = .ok font.unitsPerEm
  glyph?_eq : ∀ char, program.glyph? char = font.glyph? char

/-- Loading ended without a program, after all unreadable members were reported. -/
structure NotFound (loading : Loading) (collection : Collection) (file : Path) (name : String) :
    Prop where
  failed : ∃ failure, loading.result = .error failure ∧
    failure.message = "font " ++ name ++ " not found in " ++ file.display
  events_eq : loading.events = collection.members.filterMap (unreadable? file)
  absent : ¬collection.HasNamed name

theorem foundAt_of_firstNamed (isData : files.read file = .ok data)
    (parsed : Collection.read data = .ok collection)
    (first : collection.FirstNamed name index font) :
    (trueType files file name).FoundAt collection file name ⟨data, some index, name⟩ index
      font := by
  have isFile := readFontFile_eq_ok isData (FontFile.read_of_collection parsed)
  have isFound := Sfnt.Collection.find_of_firstNamed first file
  have isFont : SfntProgram.font ⟨data, some index, name⟩ = .ok font :=
    SfntProgram.font_eq_ok ((SfntProgram.find_of_collection parsed index name).trans first.readable)
  refine ⟨result_trueType_of_collection isData parsed first, ?_, rfl, first, isFont, ?_, ?_⟩
  · simp [trueType, isFile, isFound]
  · simp [SfntProgram.unitsPerEm, isFont, Except.map]
  · intro char
    simp [SfntProgram.glyph?, isFont]

theorem notFound_of_not_hasNamed (isData : files.read file = .ok data)
    (parsed : Collection.read data = .ok collection) (absent : ¬collection.HasNamed name) :
    (trueType files file name).NotFound collection file name := by
  have isFile := readFontFile_eq_ok isData (FontFile.read_of_collection parsed)
  have isMissed := Sfnt.Collection.find_of_not_hasNamed absent file
  refine ⟨⟨⟨[], .memberNotFound name file⟩, ?_, String.intercalate_singleton⟩, ?_, absent⟩
  · simp [trueType, isFile, isMissed, ofFound]
  · simp [trueType, isFile, isMissed]

end Loading

theorem level_of_mem_unreadable {file : Path} {members : List (Except ReadFault Font)}
    {event : Event} (reported : event ∈ members.filterMap (unreadable? file)) :
    event.level = .warning := by
  rcases List.mem_filterMap.mp reported with ⟨member, -, isEvent⟩
  cases member with
  | ok font => cases isEvent
  | error fault =>
      cases isEvent
      rfl

namespace FontRecord

variable {files : FileSystem} {record : FontRecord} {data : Bytes} {collection : Collection}

/-- A TrueType record is loaded from a collection exactly when a readable member has its name. -/
theorem load_finds_member (isTrueType : record.format = .trueType)
    (isData : files.read record.file = .ok data)
    (parsed : Collection.read data = .ok collection) :
    ((∃ program, (record.load files).result = .ok program) ↔
        collection.HasNamed record.postscriptName) ∧
      (∀ program, (record.load files).result = .ok program →
        ∃ sfnt index font, program = .trueType sfnt ∧
          (record.load files).FoundAt collection record.file record.postscriptName sfnt index
            font) ∧
      (∀ failure, (record.load files).result = .error failure →
        (record.load files).NotFound collection record.file record.postscriptName) ∧
      ∀ event ∈ (record.load files).events, event.level = .warning := by
  have isLoad : record.load files = Loading.trueType files record.file record.postscriptName := by
    simp [load, isTrueType]
  rw [isLoad]
  by_cases present : collection.HasNamed record.postscriptName
  · rcases present with ⟨place, named, readable, isName⟩
    rcases Sfnt.Collection.exists_firstNamed readable isName with ⟨index, font, first⟩
    have found := Loading.foundAt_of_firstNamed isData parsed first
    refine ⟨iff_of_true ⟨_, found.result_eq⟩ ⟨place, named, readable, isName⟩, ?_, ?_, ?_⟩
    · intro program loaded
      rw [found.result_eq] at loaded
      exact ⟨_, index, font, (Except.ok.inj loaded).symm, found⟩
    · intro failure failed
      rw [found.result_eq] at failed
      cases failed
    · intro event reported
      rw [found.events_eq] at reported
      exact level_of_mem_unreadable reported
  · have missed := Loading.notFound_of_not_hasNamed isData parsed present
    rcases missed.failed with ⟨failure, failed, -⟩
    refine ⟨iff_of_false ?_ present, ?_, ?_, ?_⟩
    · rintro ⟨program, loaded⟩
      rw [failed] at loaded
      cases loaded
    · intro program loaded
      rw [failed] at loaded
      cases loaded
    · intro _ _
      exact missed
    · intro event reported
      rw [missed.events_eq] at reported
      exact level_of_mem_unreadable reported

/-- A collection whose only member lies beyond the end of the file. -/
def hollow : Bytes :=
  [0x74, 0x74, 0x63, 0x66, 0, 1, 0, 0, 0, 0, 0, 1, 0, 0, 1, 0]

/-- The directory of the specimen with that collection in it. -/
def hollowFiles : FileSystem :=
  (FileSystem.withDirectory [0x77]).put [[0x77], Specimen.file.spelling] (.file hollow)

/-- The name of the specimen is found behind an unreadable member, and is not found among unreadable
members only. -/
theorem load_finds_member_specimens :
    Specimen.record.format = .trueType ∧
      Specimen.files.read Specimen.file = .ok Specimen.namesakes ∧
      Collection.read Specimen.namesakes = .ok Specimen.collection ∧
      (∃ sfnt index font, (Specimen.record.load Specimen.files).FoundAt Specimen.collection
        Specimen.file "A" sfnt index font) ∧
      hollowFiles.read Specimen.file = .ok hollow ∧
      Collection.read hollow = .ok ⟨hollow, [0x100]⟩ ∧
      (Specimen.record.load hollowFiles).NotFound ⟨hollow, [0x100]⟩ Specimen.file "A" := by
  have isTrueType : Specimen.record.format = .trueType := rfl
  have isData : Specimen.files.read Specimen.record.file = .ok Specimen.namesakes :=
    Specimen.read_file
  have isHollow : hollowFiles.read Specimen.record.file = .ok hollow :=
    FileSystem.IsSingleName.read_eq_ok (by decide) rfl
  have hollowParsed : Collection.read hollow = .ok ⟨hollow, [0x100]⟩ := by decide +kernel
  refine ⟨isTrueType, isData, Specimen.read_namesakes, ?_, isHollow, hollowParsed, ?_⟩
  · rcases load_finds_member isTrueType isData Specimen.read_namesakes with ⟨loads_iff, found, -⟩
    have named : Specimen.headlessFont.postscriptName? = some "A" := by decide +kernel
    rcases loads_iff.mpr ⟨1, _, Specimen.member_one, named⟩ with ⟨program, loaded⟩
    rcases found program loaded with ⟨sfnt, index, font, -, foundAt⟩
    exact ⟨sfnt, index, font, foundAt⟩
  · have failed : (Specimen.record.load hollowFiles).result =
        .error ⟨[], .memberNotFound "A" Specimen.file⟩ := by
      simp only [load, isTrueType, Loading.trueType, Loading.readFontFile, isHollow]
      decide +kernel
    exact (load_finds_member isTrueType isHollow hollowParsed).2.2.1 _ failed

end FontRecord

end FontCatalog
