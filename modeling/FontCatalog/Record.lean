import FontCatalog.CidSystemInfo
import FontCatalog.Format
import FontCatalog.Panose

/-!
# Font records

A record describes one font of a file, as far as a catalog needs to know it. A font is identified
by the key of its record: format, PostScript name and place of the file, where two spellings of
one path count as the same place.
-/

namespace FontCatalog

/-- What the catalog knows about one font. -/
structure FontRecord where
  file : Path
  format : FontFormat
  postscriptName : String
  cidSystemInfo : Option CidSystemInfo
  /-- The weight class of the `OS/2` table, or -1 without one. -/
  weightClass : Int32
  /-- The family class of the `OS/2` table, or -1 without one. -/
  familyClass : Int32
  codePageRange1 : UInt32
  codePageRange2 : UInt32
  /-- The style bits of the `head` table, or -1 for a Type 1 font. -/
  macStyle : Int32
  panose : Option Panose
deriving DecidableEq

/-- The identity of a font. -/
structure FontKey where
  format : FontFormat
  postscriptName : String
  file : List Path.Component
deriving DecidableEq

namespace FontRecord

/-- The record of a Type 1 font, of which only the name is known. -/
def ofType1 (file : Path) (postscriptName : String) : FontRecord where
  file := file
  format := .type1
  postscriptName := postscriptName
  cidSystemInfo := none
  weightClass := -1
  familyClass := -1
  codePageRange1 := 0
  codePageRange2 := 0
  macStyle := -1
  panose := none

/-- The identity of the record's font. -/
def key (record : FontRecord) : FontKey where
  format := record.format
  postscriptName := record.postscriptName
  file := record.file.components

/-- The font is CID-keyed. -/
def isCidKeyed (record : FontRecord) : Bool :=
  record.cidSystemInfo.isSome

/-- The two records agree in every field, their files as paths. -/
def agreesWith (left right : FontRecord) : Bool :=
  left.file.sameAs right.file && left == { right with file := left.file }

/-- Format, PostScript name and file, separated by colons. -/
def display (record : FontRecord) : String :=
  record.format.shortName ++ ": " ++ record.postscriptName ++ ": " ++ record.file.display

end FontRecord

end FontCatalog
