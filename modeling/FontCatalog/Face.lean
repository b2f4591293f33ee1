import FontCatalog.Cff.Table
import FontCatalog.Event
import FontCatalog.Record
import FontCatalog.Sfnt.Head
import FontCatalog.Sfnt.NameTable
import FontCatalog.Sfnt.Os2

/-!
# Faces

A face is what a font has to tell about itself, whatever the tables it was read from. Examining a
face either fails, or finds that the font is to be left out, or describes it by a record.
-/

namespace FontCatalog

/-- What a font tells about itself. Reading its outlines may fail with a fault of type `Fault`. -/
structure Face (Fault : Type) where
  hasNamingTable : Bool
  postscriptName : Option String
  familyName : Option String
  subfamilyName : Option String
  os2 : Option Sfnt.Os2
  macStyle : Option UInt16
  isOpenType : Bool
  outlines : Except Fault (Option Cff.Outlines)
  gcid : Option Bytes

/-- Why a face cannot be examined. -/
inductive FaceFault (Fault : Type) where
  | outlines (fault : Fault)
  | gcid (fault : GcidTooShort)

/-- What is found out about a face. -/
inductive Examination where
  | withoutNamingTable
  | withoutPostscriptName
  | withoutHead (postscriptName : String)
  | described (record : FontRecord) (family subfamily : Option String)
deriving DecidableEq

namespace Examination

/-- The record of a face that is described. -/
def record? : Examination → Option FontRecord
  | described record _ _ => some record
  | _ => none

/-- The event that reports an examination. -/
def event (file : Path) : Examination → Event
  | withoutNamingTable => .missingNamingTable file
  | withoutPostscriptName => .missingPostscriptName file
  | withoutHead name => .missingHead name file
  | described record family subfamily =>
      .described record.format record.postscriptName family subfamily

end Examination

namespace Face

variable {Fault : Type}

/-- The format of a face and its character collection. Outlines in the compact font format count
only for a font that is OpenType by its version; other fonts may have a `gcid` table. -/
def formatAndCollection (face : Face Fault) :
    Except (FaceFault Fault) (FontFormat × Option CidSystemInfo) :=
  let outlines := if face.isOpenType then face.outlines else .ok none
  match outlines with
  | .error fault => .error (.outlines fault)
  | .ok (some outlines) => .ok (.openType, outlines.cid)
  | .ok none =>
      match face.gcid with
      | none => .ok (.trueType, none)
      | some bytes =>
          match Gcid.read bytes with
          | .error fault => .error (.gcid fault)
          | .ok info => .ok (.trueType, some info)

/-- The record of a face with the given name, style, format and character collection. -/
def record (face : Face Fault) (file : Path) (postscriptName : String) (macStyle : UInt16)
    (format : FontFormat) (cidSystemInfo : Option CidSystemInfo) : FontRecord where
  file := file
  format := format
  postscriptName := postscriptName
  cidSystemInfo := cidSystemInfo
  weightClass := (face.os2.map fun os2 => Int32.ofNat os2.weightClass.toNat).getD (-1)
  familyClass := (face.os2.map fun os2 => os2.familyClass.toInt32).getD (-1)
  codePageRange1 := (face.os2.bind fun os2 => os2.codePageRange1).getD 0
  codePageRange2 := (face.os2.bind fun os2 => os2.codePageRange2).getD 0
  macStyle := Int32.ofNat macStyle.toNat
  panose := face.os2.bind fun os2 => os2.panose

/-- Examines a face that was found in a file. -/
def examine (face : Face Fault) (file : Path) : Except (FaceFault Fault) Examination :=
  if face.hasNamingTable then
    match face.postscriptName, face.macStyle with
    | none, _ => .ok .withoutPostscriptName
    | some postscriptName, none => .ok (.withoutHead postscriptName)
    | some postscriptName, some macStyle =>
        match face.formatAndCollection with
        | .error fault => .error fault
        | .ok (format, cidSystemInfo) =>
            .ok
              (.described (face.record file postscriptName macStyle format cidSystemInfo)
                face.familyName face.subfamilyName)
  else .ok .withoutNamingTable

end Face

namespace Sfnt.Font

/-- The outlines in the compact font format, if the font has any. -/
def outlines (font : Font) : Except Cff.Fault (Option Cff.Outlines) :=
  match font.table? .cff with
  | none => .ok none
  | some bytes => (Cff.outlinesOfBytes bytes).map some

/-- What the tables of a font tell. -/
def face (font : Font) : Face Cff.Fault where
  hasNamingTable := font.nameTable?.isSome
  postscriptName := font.name? .postscript
  familyName := font.name? .family
  subfamilyName := font.name? .subfamily
  os2 := font.os2?
  macStyle := font.macStyle?
  isOpenType := font.isOpenType
  outlines := font.outlines
  gcid := font.table? .gcid

end Sfnt.Font

end FontCatalog
