import FontCatalog.Sfnt.Font

/-!
# Font headers

The `head` table has 54 bytes. The Macintosh style is a set of seven flags; the bits above them
are reserved and do not count.
-/

namespace FontCatalog.Sfnt.Font

/-- The `head` table of a font, if all of it is there. -/
def headTable? (font : Font) : Option Bytes := do
  let bytes ← font.table? .head
  bytes.slice? 0 54

/-- The Macintosh style flags. -/
def macStyle? (font : Font) : Option UInt16 := do
  let head ← font.headTable?
  let flags ← head.u16At? 44
  pure (flags &&& 0x007F)

/-- The size of the design grid, 0 without a font header. -/
def unitsPerEm (font : Font) : Nat :=
  match font.headTable? with
  | some head => Bytes.bigEndian ((head.drop 18).take 2)
  | none => 0

end FontCatalog.Sfnt.Font
