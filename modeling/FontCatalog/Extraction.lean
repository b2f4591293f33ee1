import FontCatalog.Face
import FontCatalog.FileSystem.Access

/-!
# Extraction

The extraction of a file is the list of the records of its fonts and of the events that report how
they came about. It never fails: what goes wrong with a font or a file is an event, and the other
fonts are not affected.
-/

namespace FontCatalog

/-- Records, and the events that report how they came about. -/
structure Extraction where
  records : List FontRecord
  events : List Event
deriving DecidableEq

/-- The cause of a fault of a face. -/
def FaceFault.cause : FaceFault Cff.Fault → Cause
  | outlines fault => .cff fault
  | gcid fault => .gcid fault

/-- The fault of a face as a failure. -/
def FaceFault.failure (fault : FaceFault Cff.Fault) : Failure :=
  ⟨[], fault.cause⟩

/-- Examines a font of a file. -/
def Sfnt.Font.examine (font : Sfnt.Font) (file : Path) : Except Failure Examination :=
  (font.face.examine file).mapError FaceFault.failure

/-- Reads a Type 1 font from a file. -/
def Type1.Font.load (files : FileSystem) (file : Path) : Except Failure Type1.Font := do
  let opened ← during (.opening file) .access (files.openFile file)
  Failure.within (.parsingType1 file) do
    let data ← during .readingType1Data .access opened.read
    match Type1.Font.ofBytes data with
    | .ok font => .ok font
    | .error fault => .error ⟨[], .type1 fault⟩

namespace Extraction

/-- Nothing was extracted. -/
def empty : Extraction :=
  ⟨[], []⟩

/-- One extraction after another. -/
def append (first second : Extraction) : Extraction :=
  ⟨first.records ++ second.records, first.events ++ second.events⟩

/-- Many extractions, one after another. -/
def concat (extractions : List Extraction) : Extraction :=
  extractions.foldr append empty

/-- What an examination contributes. -/
def ofExamination (file : Path) (examination : Examination) : Extraction :=
  ⟨examination.record?.toList, [examination.event file]⟩

/-- What a member of a collection contributes. -/
def ofMember (file : Path) (index : Nat) (member : Except Sfnt.ReadFault Sfnt.Font) :
    Extraction :=
  let examined := do
    let font ← during (.parsingMember index) .sfnt member
    font.examine file
  match examined with
  | .ok examination => ofExamination file examination
  | .error failure => ⟨[], [.memberFailed index file failure]⟩

/-- What the members of a collection contribute. -/
def ofCollection (file : Path) (collection : Sfnt.Collection) : Extraction :=
  concat (collection.members.zipIdx.map fun (member, index) => ofMember file index member)

/-- What a file with a single font contributes. -/
def simple (files : FileSystem) (file : Path) : Except Failure Extraction := do
  let data ← during (.readingFont file) .access (files.read file)
  let font ← during (.parsingFont file) .sfnt (Sfnt.Font.read data)
  let examination ← font.examine file
  pure (ofExamination file examination)

/-- What a collection file contributes. -/
def collection (files : FileSystem) (file : Path) : Except Failure Extraction := do
  let data ← during (.readingCollection file) .access (files.read file)
  let collection ← during (.parsingCollectionHeader file) .sfnt (Sfnt.Collection.read data)
  pure (ofCollection file collection)

/-- What a Type 1 file contributes. -/
def type1 (files : FileSystem) (file : Path) : Except Failure Extraction := do
  let font ← Type1.Font.load files file
  pure
    ⟨[FontRecord.ofType1 file font.name],
      [.describedType1 font.name font.familyName font.weight]⟩

/-- What is extracted, where a failure is reported as the event of the whole file. -/
def orReport (file : Path) : Except Failure Extraction → Extraction
  | .ok extraction => extraction
  | .error failure => ⟨[], [.fileFailed file failure]⟩

/-- What a file contributes. A path that does not name a font file contributes nothing. -/
def ofFile (files : FileSystem) (file : Path) : Extraction :=
  match file.classify with
  | .simple => orReport file (simple files file)
  | .collection => orReport file (collection files file)
  | .type1 => orReport file (type1 files file)
  | .unrecognized => empty

/-- What many files contribute, in their order. -/
def ofFiles (files : FileSystem) (paths : List Path) : Extraction :=
  concat (paths.map (ofFile files))

end Extraction

end FontCatalog
