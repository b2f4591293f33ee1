import FontCatalog.Sfnt.Font
import FontCatalog.Text.MacRoman
import FontCatalog.Text.Utf16
import FontCatalog.Text.WhiteSpace

/-!
# Naming tables

A naming table lists the names of a font for several platforms, encodings and languages. Of the
records of one name that can be decoded and are not blank, the first one of the best rank is
taken: English for the Macintosh, then American English for Windows, then any other.
-/

namespace FontCatalog.Sfnt

/-- The number that tells which name of a font a record holds. -/
abbrev NameId := Nat

/-- The name of the font family. -/
def NameId.family : NameId := 1

/-- The name of the style inside the family. -/
def NameId.subfamily : NameId := 2

/-- The PostScript name. -/
def NameId.postscript : NameId := 6

/-- An entry of a naming table. -/
structure NameRecord where
  platform : Nat
  encoding : Nat
  language : Nat
  nameId : NameId
  length : Nat
  offset : Nat
deriving DecidableEq

namespace NameRecord

/-- The record that twelve bytes spell. -/
def ofBytes (bytes : Bytes) : NameRecord where
  platform := Bytes.bigEndian (bytes.take 2)
  encoding := Bytes.bigEndian ((bytes.drop 2).take 2)
  language := Bytes.bigEndian ((bytes.drop 4).take 2)
  nameId := Bytes.bigEndian ((bytes.drop 6).take 2)
  length := Bytes.bigEndian ((bytes.drop 8).take 2)
  offset := Bytes.bigEndian ((bytes.drop 10).take 2)

/-- The rank of a record, lower for the better; records whose encoding is not known have none. -/
def rank? (record : NameRecord) : Option Nat :=
  if record.platform = 1 ∧ record.encoding = 0 then
    if record.language = 0 then some 0 else some 2
  else if record.platform = 3 ∧ record.encoding = 1 ∧ record.language = 0x0409 then some 1
  else if record.platform = 0 then some 2
  else if record.platform = 3 ∧
      (record.encoding = 0 ∨ record.encoding = 1 ∨ record.encoding = 10) then some 2
  else none

/-- The text of a record, if it lies inside the strings of the table. -/
def text? (record : NameRecord) (strings : Bytes) : Option (List Char) := do
  let bytes ← strings.slice? record.offset record.length
  pure (if record.platform = 1 then Text.MacRoman.decode bytes else Text.Utf16.decode bytes)

end NameRecord

/-- A naming table: its records and the bytes of their strings. -/
structure NameTable where
  records : List NameRecord
  strings : Bytes
deriving DecidableEq

namespace NameTable

/-- The table that the bytes spell, if its header is there. Records that do not all fit are
dropped. -/
def ofBytes? (bytes : Bytes) : Option NameTable := do
  let header ← bytes.slice? 0 6
  let count := Bytes.bigEndian ((header.drop 2).take 2)
  let start := Bytes.bigEndian (header.drop 4)
  pure
    { records := (bytes.table 6 12 count).map NameRecord.ofBytes
      strings := bytes.drop start }

/-- The better of the choice so far and a record. The choice is a trimmed text with its rank. -/
def choose (strings : Bytes) (nameId : NameId) (best : Option (Nat × List Char))
    (record : NameRecord) : Option (Nat × List Char) :=
  if record.nameId ≠ nameId then best
  else
    match record.rank? with
    | none => best
    | some rank =>
        if best.any fun (held, _) => held ≤ rank then best
        else
          match record.text? strings with
          | none => best
          | some text => if Text.trim text = [] then best else some (rank, Text.trim text)

/-- The name with the given number. -/
def name? (table : NameTable) (nameId : NameId) : Option String :=
  (table.records.foldl (choose table.strings nameId) none).map fun (_, text) =>
    String.ofList text

end NameTable

namespace Font

/-- The naming table of a font. -/
def nameTable? (font : Font) : Option NameTable := do
  let bytes ← font.table? .naming
  NameTable.ofBytes? bytes

/-- A name of a font. -/
def name? (font : Font) (nameId : NameId) : Option String := do
  let table ← font.nameTable?
  table.name? nameId

/-- The PostScript name of a font. -/
def postscriptName? (font : Font) : Option String :=
  font.name? .postscript

end Font

end FontCatalog.Sfnt
