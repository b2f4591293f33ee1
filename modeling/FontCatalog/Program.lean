import FontCatalog.Failure
import FontCatalog.Format
import FontCatalog.Sfnt.CharacterMap
import FontCatalog.Sfnt.Head

/-!
# Font programs

A font program is a font that has been loaded: the parts of a Type 1 font, or the bytes of an sfnt
file together with the place of the font in it. A program made by `SfntProgram.make` has been read
once, so that it can be read again.
-/

namespace FontCatalog

/-- A font of an sfnt file. -/
structure SfntProgram where
  data : Bytes
  /-- The place of the font in a collection; a file with a single font has no places. -/
  member? : Option Nat
  postscriptName : String
deriving DecidableEq

namespace SfntProgram

/-- The font in its file. -/
def find (program : SfntProgram) : Except Sfnt.ReadFault Sfnt.Font :=
  match program.member? with
  | some index => Sfnt.Font.readMember program.data index
  | none => Sfnt.Font.read program.data

/-- The font that the program stands for. -/
def font (program : SfntProgram) : Except Failure Sfnt.Font :=
  during (.rereadingFont program.postscriptName) .sfnt program.find

/-- The program of a font that can be read. -/
def make (data : Bytes) (member? : Option Nat) (postscriptName : String) :
    Except Failure SfntProgram :=
  let program : SfntProgram := ⟨data, member?, postscriptName⟩
  program.font.map fun _ => program

/-- The size of the design grid. -/
def unitsPerEm (program : SfntProgram) : Except Failure Nat :=
  program.font.map fun font => font.unitsPerEm

/-- The glyph of a character. A font that cannot be read has none. -/
def glyph? (program : SfntProgram) (char : Char) : Option Sfnt.GlyphId :=
  match program.font with
  | .ok font => font.glyph? char
  | .error _ => none

end SfntProgram

/-- A font that has been loaded. -/
inductive FontProgram where
  | type1 (font : Type1.Font)
  | trueType (program : SfntProgram)
  | openType (program : SfntProgram)
deriving DecidableEq

namespace FontProgram

/-- The format that a program was loaded as. -/
def format : FontProgram → FontFormat
  | type1 _ => .type1
  | trueType _ => .trueType
  | openType _ => .openType

/-- The PostScript name of a program: the one a Type 1 font gives itself, and the one under which
an sfnt font was asked for. -/
def postscriptName : FontProgram → String
  | type1 font => font.name
  | trueType program => program.postscriptName
  | openType program => program.postscriptName

/-- The sfnt font of a program. -/
def sfnt? : FontProgram → Option SfntProgram
  | type1 _ => none
  | trueType program => some program
  | openType program => some program

/-- The Type 1 font of a program. -/
def type1? : FontProgram → Option Type1.Font
  | type1 font => some font
  | _ => none

end FontProgram

end FontCatalog
