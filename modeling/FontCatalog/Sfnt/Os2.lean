import FontCatalog.Panose
import FontCatalog.Sfnt.Font

/-!
# Classification of the typeface

The `OS/2` table has at least 78 bytes. From version 1 on it also holds two sets of code pages,
each of which may be cut off.
-/

namespace FontCatalog.Sfnt

/-- What an `OS/2` table tells about a typeface. -/
structure Os2 where
  weightClass : UInt16
  familyClass : Int16
  codePageRange1 : Option UInt32
  codePageRange2 : Option UInt32
  panose : Option Panose
deriving DecidableEq

/-- The classification that the bytes of an `OS/2` table spell. -/
def Os2.ofBytes? (bytes : Bytes) : Option Os2 := do
  let fixed ← bytes.slice? 0 78
  let version ← fixed.u16At? 0
  let weightClass ← fixed.u16At? 4
  let familyClass ← fixed.u16At? 30
  let codePages (offset : Nat) : Option UInt32 :=
    if 1 ≤ version then bytes.u32At? offset else none
  pure
    { weightClass := weightClass
      familyClass := familyClass.toInt16
      codePageRange1 := codePages 78
      codePageRange2 := codePages 82
      panose := Panose.ofBytes? ((fixed.drop 32).take 10) }

/-- The classification in the `OS/2` table of a font. -/
def Font.os2? (font : Font) : Option Os2 := do
  let bytes ← font.table? .os2
  Os2.ofBytes? bytes

end FontCatalog.Sfnt
