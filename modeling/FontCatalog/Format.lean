import FontCatalog.Path

/-!
# Font formats

The layout of a font file is told by the extension of its path alone, whatever the file holds.
The format of a font is what a record of the catalog says about one font of a file.
-/

namespace FontCatalog

/-- How the fonts of a file are laid out. -/
inductive ContainerKind where
  /-- A single sfnt font. -/
  | simple
  /-- A collection of sfnt fonts. -/
  | collection
  /-- A Type 1 font in PFB segments. -/
  | type1
  /-- Not a font file. -/
  | unrecognized
deriving DecidableEq

/-- The format of one font. -/
inductive FontFormat where
  | type1
  | trueType
  | openType
deriving DecidableEq

/-- The short name of a format in records and listings. -/
def FontFormat.shortName : FontFormat → String
  | type1 => "PFB"
  | trueType => "TTF"
  | openType => "OTF"

/-- The format with the given short name. -/
def FontFormat.ofShortName? (name : String) : Option FontFormat :=
  [type1, trueType, openType].find? fun format => format.shortName == name

namespace ContainerKind

/-- The lower-case form of an ASCII letter; other bytes stay as they are. -/
def lowerByte (byte : UInt8) : UInt8 :=
  if 0x41 ≤ byte ∧ byte ≤ 0x5A then byte + 0x20 else byte

/-- The bytes of an ASCII name. -/
def asciiName (name : String) : Bytes :=
  Text.Utf8.encode name.toList

/-- The kind of container that an extension stands for, in whichever case it is spelled. -/
def ofExtension (extension : Bytes) : ContainerKind :=
  let lower := extension.map lowerByte
  if lower = asciiName "ttf" ∨ lower = asciiName "otf" then simple
  else if lower = asciiName "ttc" ∨ lower = asciiName "otc" then collection
  else if lower = asciiName "pfb" then type1
  else unrecognized

end ContainerKind

/-- The kind of container that a path names. -/
def Path.classify (path : Path) : ContainerKind :=
  match path.extension? with
  | some extension => ContainerKind.ofExtension extension
  | none => .unrecognized

/-- The path names a font file. -/
def Path.isFont (path : Path) : Bool :=
  path.classify ≠ .unrecognized

end FontCatalog
