import FontCatalog.Bytes
import FontCatalog.Text.Utf8

/-!
# Tags

Four bytes that name a table of an sfnt font, usually four ASCII characters.
-/

namespace FontCatalog.Sfnt

/-- A tag, as the number that its four bytes spell. -/
structure Tag where
  code : UInt32
deriving DecidableEq

namespace Tag

/-- The tag with the given name, filled up with spaces to four bytes. -/
def ofName (name : String) : Tag :=
  let bytes := Text.Utf8.encode name.toList ++ List.replicate 4 0x20
  ⟨UInt32.ofNat (Bytes.bigEndian (bytes.take 4))⟩

/-- The naming table. -/
def naming : Tag := ofName "name"

/-- The font header. -/
def head : Tag := ofName "head"

/-- The classification of the typeface. -/
def os2 : Tag := ofName "OS/2"

/-- Outlines in the compact font format. -/
def cff : Tag := ofName "CFF "

/-- The character map. -/
def characterMap : Tag := ofName "cmap"

/-- The character collection of an old Macintosh font. -/
def gcid : Tag := ofName "gcid"

end Tag

end FontCatalog.Sfnt
