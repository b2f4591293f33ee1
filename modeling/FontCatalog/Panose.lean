import FontCatalog.Bytes

/-!
# PANOSE

The ten digits that classify the look of a typeface.
-/

namespace FontCatalog

/-- A PANOSE classification. -/
structure Panose where
  familyKind : UInt8
  serifStyle : UInt8
  weight : UInt8
  proportion : UInt8
  contrast : UInt8
  strokeVariation : UInt8
  armStyle : UInt8
  letterform : UInt8
  midline : UInt8
  xHeight : UInt8
deriving DecidableEq

namespace Panose

/-- The classification that exactly ten bytes spell. -/
def ofBytes? : Bytes → Option Panose
  | [familyKind, serifStyle, weight, proportion, contrast, strokeVariation, armStyle, letterform,
      midline, xHeight] =>
      some ⟨familyKind, serifStyle, weight, proportion, contrast, strokeVariation, armStyle,
        letterform, midline, xHeight⟩
  | _ => none

/-- The ten digits in order. -/
def toBytes (panose : Panose) : Bytes :=
  [panose.familyKind, panose.serifStyle, panose.weight, panose.proportion, panose.contrast,
    panose.strokeVariation, panose.armStyle, panose.letterform, panose.midline, panose.xHeight]

theorem ofBytes?_toBytes (panose : Panose) : ofBytes? panose.toBytes = some panose := rfl

end Panose

end FontCatalog
