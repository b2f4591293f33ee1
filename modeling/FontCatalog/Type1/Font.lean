import FontCatalog.Text.Utf8
import FontCatalog.Type1.Dictionary
import FontCatalog.Type1.Eexec
import FontCatalog.Type1.Segments

/-!
# Type 1 fonts

A Type 1 font is read from a PFB file: the file is split into its portions, the clear text has to
start like a font program and to name the font, and the encrypted portion is kept as it is.
-/

namespace FontCatalog.Type1

/-- Why bytes are no Type 1 font. -/
inductive Fault where
  | segments (fault : SegmentFault)
  | badHeader
  | noFontName
deriving DecidableEq

/-- The wording of a fault. -/
def Fault.message : Fault → String
  | segments fault => fault.message
  | badHeader => "invalid Type1 header"
  | noFontName => "Type1 font has no /FontName"

/-- A Type 1 font. -/
structure Font where
  name : String
  familyName : Option String
  fullName : Option String
  weight : Option String
  clearText : Bytes
  encrypted : Bytes
deriving DecidableEq

namespace Font

/-- The text starts like a font program. -/
def hasFontHeader (text : List Char) : Bool :=
  "%!PS-AdobeFont".toList.isPrefixOf text || "%!FontType1".toList.isPrefixOf text

/-- The font with the given portions. -/
def ofSegments (segments : Segments) : Except Fault Font :=
  let text := Text.Utf8.decodeLossy segments.clearText
  if hasFontHeader text then
    match Dictionary.nameUnder? .fontName text with
    | none => .error .noFontName
    | some name =>
        .ok
          { name := name
            familyName := Dictionary.stringUnder? .familyName text
            fullName := Dictionary.stringUnder? .fullName text
            weight := Dictionary.stringUnder? .weight text
            clearText := segments.clearText
            encrypted := segments.encrypted }
  else .error .badHeader

/-- Reads a font from the bytes of a PFB file. -/
def ofBytes (data : Bytes) : Except Fault Font :=
  match Segments.split data with
  | .error fault => .error (.segments fault)
  | .ok segments => ofSegments segments

/-- The decrypted private portion. -/
def privatePortion (font : Font) : Bytes :=
  Eexec.decrypt font.encrypted

end Font

end FontCatalog.Type1
