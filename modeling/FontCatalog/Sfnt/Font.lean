import FontCatalog.Bisection
import FontCatalog.Sfnt.ReadFault
import FontCatalog.Sfnt.Tag

/-!
# sfnt fonts and collections

An sfnt font is a directory of tagged tables. The places of the tables count from the start of the
file, also when several fonts share one file as the members of a collection. A directory whose
tags increase is searched by bisection, any other from its start.
-/

namespace FontCatalog.Sfnt

/-- An entry of a table directory. -/
structure TableEntry where
  tag : Tag
  offset : Nat
  length : Nat
deriving DecidableEq

/-- The entry that sixteen bytes spell: tag, checksum, offset and length. -/
def TableEntry.ofBytes (bytes : Bytes) : TableEntry where
  tag := ⟨UInt32.ofNat (Bytes.bigEndian (bytes.take 4))⟩
  offset := Bytes.bigEndian ((bytes.drop 8).take 4)
  length := Bytes.bigEndian ((bytes.drop 12).take 4)

/-- A table directory. -/
abbrev Directory := List TableEntry

namespace Directory

/-- The tags increase strictly, from above `previous` on. -/
def increasesAbove (previous : UInt32) : Directory → Bool
  | [] => true
  | entry :: rest => previous < entry.tag.code && increasesAbove entry.tag.code rest

/-- The entry with a tag that bisection finds. -/
def bisected? (directory : Directory) (tag : Tag) : Option TableEntry := do
  let side (place : Nat) : Option Ordering :=
    (directory[place]?).map fun entry => compare tag.code entry.tag.code
  let place ← bisect side 0 directory.length
  directory[place]?

/-- The entry with a tag. -/
def lookup? (directory : Directory) (tag : Tag) : Option TableEntry :=
  if increasesAbove 0 directory then bisected? directory tag
  else directory.find? fun entry => entry.tag == tag

end Directory

/-- A font inside a file. -/
structure Font where
  file : Bytes
  version : UInt32
  directory : Directory
deriving DecidableEq

namespace Font

/-- The version of fonts with TrueType outlines. -/
def trueTypeVersion : UInt32 := 0x00010000

/-- The version of fonts with outlines in the compact font format, `OTTO`. -/
def openTypeVersion : UInt32 := 0x4F54544F

/-- The version of TrueType fonts on old Macintosh systems, `true`. -/
def appleVersion : UInt32 := 0x74727565

/-- The font whose directory starts at `base`. A directory that does not fit is empty. -/
def readAt (file : Bytes) (base : Nat) : Except ReadFault Font :=
  let header : Bytes := file.drop base
  match header.slice? 0 12 with
  | none => .error .outOfBounds
  | some start =>
      let version := UInt32.ofNat (Bytes.bigEndian (start.take 4))
      if version = trueTypeVersion ∨ version = openTypeVersion ∨ version = appleVersion then
        let count := Bytes.bigEndian ((start.drop 4).take 2)
        .ok
          { file := file
            version := version
            directory := (header.table 12 16 count).map TableEntry.ofBytes }
      else .error (.badVersion version)

/-- The font that a file starts with. -/
def read (file : Bytes) : Except ReadFault Font :=
  readAt file 0

/-- The bytes of a table. A table at place 0, and one that leaves the file, is missing. -/
def table? (font : Font) (tag : Tag) : Option Bytes := do
  let entry ← font.directory.lookup? tag
  if entry.offset = 0 then none else font.file.slice? entry.offset entry.length

/-- The version says that the outlines are in the compact font format. -/
def isOpenType (font : Font) : Bool :=
  font.version == openTypeVersion

end Font

/-- A file that holds several fonts, as the places of their directories. -/
structure Collection where
  file : Bytes
  offsets : List Nat
deriving DecidableEq

namespace Collection

/-- The tag of collections. -/
def tag : Tag := Tag.ofName "ttcf"

/-- Reads the header of a collection. A list of offsets that does not fit is empty. -/
def read (file : Bytes) : Except ReadFault Collection :=
  match file.slice? 0 12 with
  | none => .error .outOfBounds
  | some header =>
      let found := UInt32.ofNat (Bytes.bigEndian (header.take 4))
      if found = tag.code then
        let count := Bytes.bigEndian (header.drop 8)
        .ok { file := file, offsets := (file.table 12 4 count).map Bytes.bigEndian }
      else .error (.badCollectionTag found)

/-- The member at a place of the collection. -/
def member (collection : Collection) (index : Nat) : Except ReadFault Font :=
  match collection.offsets[index]? with
  | none => .error (.noSuchMember index)
  | some offset => Font.readAt collection.file offset

/-- All members in order; members that cannot be read are among them. -/
def members (collection : Collection) : List (Except ReadFault Font) :=
  collection.offsets.map (Font.readAt collection.file)

end Collection

/-- What a file of sfnt data holds. -/
inductive FontFile where
  | single (font : Font)
  | collection (collection : Collection)

namespace FontFile

/-- Reads a file: a collection if its header is one, a single font otherwise. -/
def read (file : Bytes) : Except ReadFault FontFile :=
  match Collection.read file with
  | .ok held => .ok (.collection held)
  | .error _ => (Font.read file).map .single

/-- The font at a place of a file; a single font has the place 0. -/
def member (file : FontFile) (index : Nat) : Except ReadFault Font :=
  match file with
  | single font => if index = 0 then .ok font else .error (.noSuchMember index)
  | collection held => held.member index

end FontFile

/-- The font at a place of a file. -/
def Font.readMember (file : Bytes) (index : Nat) : Except ReadFault Font := do
  let fontFile ← FontFile.read file
  fontFile.member index

end FontCatalog.Sfnt
