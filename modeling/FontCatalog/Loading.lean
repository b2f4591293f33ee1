import FontCatalog.Extraction
import FontCatalog.Program

/-!
# Loading

Loading turns a record back into the font that it describes. The file is read again, so that what
is loaded depends on what the file holds by then. The font of a collection is found by its
PostScript name; members that cannot be read are reported and passed over.
-/

namespace FontCatalog

/-- What became of loading a font, and the events that report it. -/
structure Loading where
  result : Except Failure FontProgram
  events : List Event

/-- The first member of a collection with a PostScript name, among members that are counted from
`start` on, and the events for the members before it that cannot be read. -/
def findNamed (file : Path) (postscriptName : String) (start : Nat) :
    List (Except Sfnt.ReadFault Sfnt.Font) → Option Nat × List Event
  | [] => (none, [])
  | .error fault :: rest =>
      let (found, events) := findNamed file postscriptName (start + 1) rest
      (found, .memberUnreadable file fault :: events)
  | .ok font :: rest =>
      if font.name? .postscript = some postscriptName then (some start, [])
      else findNamed file postscriptName (start + 1) rest

namespace Sfnt.Collection

/-- The place of the first member with a PostScript name. -/
def find (collection : Collection) (file : Path) (postscriptName : String) :
    Option Nat × List Event :=
  findNamed file postscriptName 0 collection.members

end Sfnt.Collection

namespace Loading

/-- A result without any event. -/
def silent (result : Except Failure FontProgram) : Loading :=
  ⟨result, []⟩

/-- The bytes of a file, and the fonts that they hold. -/
def readFontFile (files : FileSystem) (file : Path) :
    Except Failure (Bytes × Sfnt.FontFile) := do
  let data ← during (.readingFont file) .access (files.read file)
  let fontFile ← during (.parsingFont file) .sfnt (Sfnt.FontFile.read data)
  pure (data, fontFile)

/-- Loads a Type 1 font. -/
def type1 (files : FileSystem) (file : Path) : Loading :=
  silent ((Type1.Font.load files file).map .type1)

/-- The program of the member of a collection that was found. -/
def ofFound (data : Bytes) (file : Path) (postscriptName : String) :
    Option Nat → Except Failure FontProgram
  | some index => (SfntProgram.make data (some index) postscriptName).map .trueType
  | none => .error ⟨[], .memberNotFound postscriptName file⟩

/-- Loads a TrueType font: the member of that name in a collection, the only font otherwise. -/
def trueType (files : FileSystem) (file : Path) (postscriptName : String) : Loading :=
  match readFontFile files file with
  | .error failure => silent (.error failure)
  | .ok (data, .single _) => silent ((SfntProgram.make data none postscriptName).map .trueType)
  | .ok (data, .collection collection) =>
      let (found, events) := collection.find file postscriptName
      ⟨ofFound data file postscriptName found, events⟩

/-- Loads an OpenType font. Collections of such fonts are not supported. -/
def openType (files : FileSystem) (file : Path) (postscriptName : String) : Loading :=
  match readFontFile files file with
  | .error failure => silent (.error failure)
  | .ok (data, .single _) => silent ((SfntProgram.make data none postscriptName).map .openType)
  | .ok (_, .collection _) => silent (.error ⟨[], .openTypeInCollection postscriptName file⟩)

end Loading

/-- Loads the font of a record. -/
def FontRecord.load (record : FontRecord) (files : FileSystem) : Loading :=
  match record.format with
  | .type1 => Loading.type1 files record.file
  | .trueType => Loading.trueType files record.file record.postscriptName
  | .openType => Loading.openType files record.file record.postscriptName

end FontCatalog
