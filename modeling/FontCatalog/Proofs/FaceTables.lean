import FontCatalog.Proofs.ByteStrings
import FontCatalog.Proofs.Utf16RoundTrip
import FontCatalog.Sfnt.Head
import FontCatalog.Sfnt.NameTable
import FontCatalog.Sfnt.Os2

/-!
# Tables that describe a font

The bytes of a naming table, of a font header and of a classification of version 1, and what is read
from them: the PostScript name that was stored for Windows among other names, the seven flags of the
Macintosh style, and the classification as it was.
-/

namespace FontCatalog

namespace Text

/-- The text has no white space at either end. -/
structure IsTrimmed (text : List Char) : Prop where
  starts : ∀ char, text.head? = some char → isWhiteSpace char = false
  ends : ∀ char, text.getLast? = some char → isWhiteSpace char = false

theorem isTrimmed_iff (text : List Char) :
    IsTrimmed text ↔ (text.head?.all fun char => !isWhiteSpace char) = true ∧
      (text.getLast?.all fun char => !isWhiteSpace char) = true := by
  simp only [Option.all_eq_true, Bool.not_eq_true']
  exact ⟨fun isTrimmed => ⟨isTrimmed.starts, isTrimmed.ends⟩,
    fun ⟨starts, ends⟩ => ⟨starts, ends⟩⟩

instance (text : List Char) : Decidable (IsTrimmed text) :=
  decidable_of_iff' _ (isTrimmed_iff text)

variable {text : List Char}

theorem dropWhile_eq_self {isBlank : Char → Bool}
    (starts : ∀ char, text.head? = some char → isBlank char = false) :
    text.dropWhile isBlank = text := by
  cases text with
  | nil => rfl
  | cons char rest =>
      have solid := starts char rfl
      rw [List.dropWhile_cons, solid]
      rfl

theorem IsTrimmed.trim_eq (isTrimmed : IsTrimmed text) : trim text = text := by
  have backwards : text.reverse.dropWhile isWhiteSpace = text.reverse := by
    apply dropWhile_eq_self
    intro char isLast
    rw [List.head?_reverse] at isLast
    exact isTrimmed.ends char isLast
  rw [trim, trimBy, dropWhile_eq_self isTrimmed.starts, trimEndBy, backwards, List.reverse_reverse]

end Text

namespace Sfnt

open Bytes

/-! ## Naming tables -/

/-- A name as a designer gives it: for which readers it is meant, what it is, and its text. -/
structure NameEntry where
  platform : UInt16
  encoding : UInt16
  language : UInt16
  nameId : UInt16
  text : String

namespace NameEntry

/-- A PostScript name for Windows, in American English. -/
def postscript (text : String) : NameEntry :=
  ⟨3, 1, 0x0409, 6, text⟩

/-- The bytes of a name, in UTF-8 if it is for the Macintosh and in UTF-16 otherwise. -/
def stored (entry : NameEntry) : Bytes :=
  if entry.platform = 1 then Text.Utf8.encode entry.text.toList
  else Text.Utf16.encode entry.text.toList

/-- The record of a name whose bytes stand at a place. -/
def recordAt (entry : NameEntry) (offset : Nat) : NameRecord where
  platform := entry.platform.toNat
  encoding := entry.encoding.toNat
  language := entry.language.toNat
  nameId := entry.nameId.toNat
  length := entry.stored.length
  offset := offset

end NameEntry

/-- The twelve bytes of a record. -/
def NameRecord.toBytes (record : NameRecord) : Bytes :=
  bigEndianOf 2 record.platform ++ bigEndianOf 2 record.encoding ++
    bigEndianOf 2 record.language ++ bigEndianOf 2 record.nameId ++ bigEndianOf 2 record.length ++
    bigEndianOf 2 record.offset

namespace NameTable

/-- The records of names whose bytes follow each other from a place on. -/
def recordsFrom (offset : Nat) : List NameEntry → List NameRecord
  | [] => []
  | entry :: rest => entry.recordAt offset :: recordsFrom (offset + entry.stored.length) rest

/-- The format, the number of records, and the place of the strings behind them. -/
def header (entries : List NameEntry) : Bytes :=
  bigEndianOf 2 0 ++ bigEndianOf 2 entries.length ++ bigEndianOf 2 (6 + 12 * entries.length)

/-- The naming table of some names: header, records, and texts in the order of the records. -/
def bytesOf (entries : List NameEntry) : Bytes :=
  header entries ++ (recordsFrom 0 entries).flatMap NameRecord.toBytes ++
    entries.flatMap NameEntry.stored

/-- The places and lengths of all strings fit into 16 bits. -/
structure Fits (entries : List NameEntry) : Prop where
  count : 6 + 12 * entries.length < 256 ^ 2
  strings : ∀ record ∈ recordsFrom 0 entries, record.length < 256 ^ 2 ∧ record.offset < 256 ^ 2

end NameTable

@[simp]
theorem NameRecord.length_toBytes (record : NameRecord) : record.toBytes.length = 12 := by
  simp [toBytes]

theorem NameRecord.ofBytes_toBytes_recordAt {entry : NameEntry} {offset : Nat}
    (fits : (entry.recordAt offset).length < 256 ^ 2 ∧ (entry.recordAt offset).offset < 256 ^ 2) :
    NameRecord.ofBytes (entry.recordAt offset).toBytes = entry.recordAt offset := by
  -- Each field is found by what stands in front of it.
  have part (before after : Bytes) (number start : Nat)
      (isBytes : (entry.recordAt offset).toBytes = before ++ (bigEndianOf 2 number ++ after))
      (isStart : before.length = start) :
      ((entry.recordAt offset).toBytes.drop start).take 2 = bigEndianOf 2 number :=
    take_drop_of_eq before after isBytes isStart (length_bigEndianOf 2 number)
  generalize isRecord : entry.recordAt offset = record at part fits
  have platform : record.toBytes.take 2 = bigEndianOf 2 record.platform := by
    simp [toBytes]
  have encoding := part (bigEndianOf 2 record.platform) _ record.encoding 2
    (by simp only [toBytes, List.append_assoc]; rfl) (by simp)
  have language := part (bigEndianOf 2 record.platform ++ bigEndianOf 2 record.encoding) _
    record.language 4 (by simp only [toBytes, List.append_assoc]; rfl) (by simp)
  have nameId := part (bigEndianOf 2 record.platform ++ bigEndianOf 2 record.encoding ++
    bigEndianOf 2 record.language) _ record.nameId 6
    (by simp only [toBytes, List.append_assoc]; rfl) (by simp)
  have length := part (bigEndianOf 2 record.platform ++ bigEndianOf 2 record.encoding ++
    bigEndianOf 2 record.language ++ bigEndianOf 2 record.nameId) (bigEndianOf 2 record.offset)
    record.length 8 (by simp only [toBytes, List.append_assoc]) (by simp)
  have place := part (bigEndianOf 2 record.platform ++ bigEndianOf 2 record.encoding ++
    bigEndianOf 2 record.language ++ bigEndianOf 2 record.nameId ++ bigEndianOf 2 record.length) []
    record.offset 10 (by simp only [toBytes, List.append_assoc, List.append_nil]) (by simp)
  rw [ofBytes, platform, encoding, language, nameId, length, place, bigEndian_bigEndianOf fits.1,
    bigEndian_bigEndianOf fits.2, ← isRecord]
  simp [NameEntry.recordAt]

namespace NameTable

variable {entries before after : List NameEntry} {nameId : NameId} {strings : Bytes}

@[simp]
theorem length_header (entries : List NameEntry) : (header entries).length = 6 := by
  simp [header]

@[simp]
theorem length_recordsFrom (offset : Nat) (entries : List NameEntry) :
    (recordsFrom offset entries).length = entries.length := by
  induction entries generalizing offset with
  | nil => rfl
  | cons entry rest ih => simp [recordsFrom, ih]

theorem recordsFrom_append (offset : Nat) (before after : List NameEntry) :
    recordsFrom offset (before ++ after) = recordsFrom offset before ++
      recordsFrom (offset + (before.flatMap NameEntry.stored).length) after := by
  induction before generalizing offset with
  | nil => rfl
  | cons entry rest ih =>
      rw [List.cons_append, recordsFrom, ih, recordsFrom, List.cons_append, List.flatMap_cons,
        List.length_append, Nat.add_assoc]

theorem exists_entry_of_mem_recordsFrom {offset : Nat} {record : NameRecord}
    (isRecord : record ∈ recordsFrom offset entries) :
    ∃ entry ∈ entries, ∃ place, record = entry.recordAt place := by
  induction entries generalizing offset with
  | nil => cases isRecord
  | cons entry rest ih =>
      rcases List.mem_cons.mp isRecord with rfl | later
      · exact ⟨entry, List.mem_cons_self, offset, rfl⟩
      · rcases ih later with ⟨other, isOther, place, isPlace⟩
        exact ⟨other, List.mem_cons_of_mem entry isOther, place, isPlace⟩

/-- A naming table comes back as its records and its strings. -/
theorem ofBytes?_bytesOf (fits : Fits entries) :
    ofBytes? (bytesOf entries) =
      some ⟨recordsFrom 0 entries, entries.flatMap NameEntry.stored⟩ := by
  have isHeader : Bytes.slice? (bytesOf entries) 0 6 = some (header entries) := by
    rw [bytesOf, List.append_assoc, ← length_header entries]
    exact slice?_zero (header entries) _
  have countBytes : ((header entries).drop 2).take 2 = bigEndianOf 2 entries.length :=
    take_drop_of_eq (bigEndianOf 2 0) (bigEndianOf 2 (6 + 12 * entries.length))
      (by simp only [header, List.append_assoc]) (by simp) (by simp)
  have startBytes : (header entries).drop 4 = bigEndianOf 2 (6 + 12 * entries.length) :=
    List.drop_left' (by simp)
  have count : entries.length < 256 ^ 2 := by
    have := fits.count
    omega
  have records : Bytes.table (bytesOf entries) 6 12 entries.length =
      (recordsFrom 0 entries).map NameRecord.toBytes := by
    rw [← length_recordsFrom 0 entries]
    refine table_of_eq (header entries) (entries.flatMap NameEntry.stored) ?_
      (length_header entries) fun record _ => record.length_toBytes
    simp only [bytesOf, List.append_assoc]
  have readBack : ((recordsFrom 0 entries).map NameRecord.toBytes).map NameRecord.ofBytes =
      recordsFrom 0 entries := by
    rw [List.map_map]
    refine (List.map_congr_left ?_).trans (List.map_id _)
    intro record isRecord
    have fitsRecord := fits.strings record isRecord
    rcases exists_entry_of_mem_recordsFrom isRecord with ⟨entry, -, place, rfl⟩
    exact NameRecord.ofBytes_toBytes_recordAt fitsRecord
  have strings : (bytesOf entries).drop (6 + 12 * entries.length) =
      entries.flatMap NameEntry.stored := by
    apply List.drop_left'
    rw [List.length_append, length_header,
      length_flatMap_of_uniform _ fun record _ => record.length_toBytes, length_recordsFrom]
  simp only [ofBytes?, isHeader, Option.bind_eq_bind, Option.bind_some, countBytes, startBytes,
    bigEndian_bigEndianOf count, bigEndian_bigEndianOf fits.count, records, readBack, strings]
  rfl

/-- Records of other names do not change what has been chosen. -/
theorem foldl_choose_of_others {records : List NameRecord} {best : Option (Nat × List Char)}
    (others : ∀ record ∈ records, record.nameId ≠ nameId) :
    records.foldl (choose strings nameId) best = best := by
  induction records with
  | nil => rfl
  | cons record rest ih =>
      have isOther := others record List.mem_cons_self
      have left : choose strings nameId best record = best := by
        rw [choose, if_pos isOther]
      rw [List.foldl_cons, left]
      exact ih fun other isRecord => others other (List.mem_cons_of_mem record isRecord)

theorem nameId_ne_of_mem_recordsFrom {offset : Nat} {record : NameRecord}
    (others : ∀ entry ∈ entries, entry.nameId ≠ 6)
    (isRecord : record ∈ recordsFrom offset entries) :
    record.nameId ≠ NameId.postscript := by
  rcases exists_entry_of_mem_recordsFrom isRecord with ⟨entry, isEntry, place, rfl⟩
  intro isPostscript
  exact others entry isEntry (UInt16.toNat_inj.mp isPostscript)

theorem text?_postscript (before after : List NameEntry) (name : String) :
    ((NameEntry.postscript name).recordAt (before.flatMap NameEntry.stored).length).text?
        ((before ++ .postscript name :: after).flatMap NameEntry.stored) = some name.toList := by
  have sliced : Bytes.slice? ((before ++ .postscript name :: after).flatMap NameEntry.stored)
      (before.flatMap NameEntry.stored).length (NameEntry.postscript name).stored.length =
        some (NameEntry.postscript name).stored := by
    refine slice?_of_eq (before.flatMap NameEntry.stored) (after.flatMap NameEntry.stored) ?_
      rfl rfl
    rw [List.flatMap_append, List.flatMap_cons]
  have decoded : Text.Utf16.decode (NameEntry.postscript name).stored = name.toList :=
    Text.Utf16.decode_encode name.toList
  simp only [NameRecord.text?, NameEntry.recordAt, sliced, Option.bind_eq_bind, Option.bind_some]
  exact congrArg some decoded

/-- The PostScript name is the one that was stored for Windows, among records of other names. -/
theorem name?_of_entries {name : String} (notEmpty : name ≠ "")
    (isTrimmed : Text.IsTrimmed name.toList) (othersBefore : ∀ entry ∈ before, entry.nameId ≠ 6)
    (othersAfter : ∀ entry ∈ after, entry.nameId ≠ 6) :
    name? ⟨recordsFrom 0 (before ++ .postscript name :: after),
      (before ++ .postscript name :: after).flatMap NameEntry.stored⟩ .postscript = some name := by
  have text := text?_postscript before after name
  have notNil : name.toList ≠ [] := fun isEmpty => notEmpty (String.toList_eq_nil_iff.mp isEmpty)
  generalize strings_eq :
    (before ++ NameEntry.postscript name :: after).flatMap NameEntry.stored = strings at text
  generalize place_eq : (before.flatMap NameEntry.stored).length = place at text
  have chosen : choose strings .postscript none ((NameEntry.postscript name).recordAt place) =
      some (1, name.toList) := by
    have isPostscript :
        ((NameEntry.postscript name).recordAt place).nameId = NameId.postscript := rfl
    have isRank : ((NameEntry.postscript name).recordAt place).rank? = some 1 := rfl
    simp only [choose, isPostscript, ne_eq, not_true_eq_false, if_false, isRank, Option.any_none,
      Bool.false_eq_true, text, isTrimmed.trim_eq, if_neg notNil]
  have records_eq : recordsFrom 0 (before ++ NameEntry.postscript name :: after) =
      recordsFrom 0 before ++ (NameEntry.postscript name).recordAt place ::
        recordsFrom (place + (NameEntry.postscript name).stored.length) after := by
    rw [recordsFrom_append, Nat.zero_add, place_eq, recordsFrom]
  -- The records in front are passed over, this one is chosen, and none behind it replaces it.
  rw [name?, records_eq, List.foldl_append, List.foldl_cons,
    foldl_choose_of_others fun record isRecord =>
      nameId_ne_of_mem_recordsFrom othersBefore isRecord,
    chosen, foldl_choose_of_others fun record isRecord =>
      nameId_ne_of_mem_recordsFrom othersAfter isRecord,
    Option.map_some]
  exact congrArg some String.ofList_toList

end NameTable

/-! ## Font headers -/

/-- The 54 bytes of a font header with a Macintosh style, on a grid of 1000 units. -/
def headBytes (macStyle : UInt16) : Bytes :=
  bigEndianOf 4 0x00010000 ++ List.replicate 8 0 ++ bigEndianOf 4 0x5F0F3CF5 ++
    List.replicate 2 0 ++ bigEndianOf 2 1000 ++ List.replicate 24 0 ++
    bigEndianOf 2 macStyle.toNat ++ List.replicate 8 0

/-- Seven of the sixteen bits of a Macintosh style are flags, which come back. -/
theorem macStyle?_of_table? {font : Font} {macStyle : UInt16}
    (isTable : font.table? .head = some (headBytes macStyle)) :
    font.macStyle? = some (macStyle &&& 0x007F) := by
  have whole : Bytes.slice? (headBytes macStyle) 0 54 = some (headBytes macStyle) :=
    slice?_of_eq [] [] (by simp) rfl (by simp [headBytes])
  have flags : Bytes.u16At? (headBytes macStyle) 44 = some macStyle := by
    refine u16At?_of_eq (bigEndianOf 4 0x00010000 ++ List.replicate 8 0 ++
      bigEndianOf 4 0x5F0F3CF5 ++ List.replicate 2 0 ++ bigEndianOf 2 1000 ++
      List.replicate 24 0) (List.replicate 8 0) ?_ (by simp)
    simp only [headBytes, List.append_assoc]
  simp only [Font.macStyle?, Font.headTable?, isTable, Option.bind_eq_bind, Option.bind_some, whole,
    flags]
  rfl

/-! ## Classifications -/

/-- What a classification of version 1 tells. -/
structure Typeface where
  weightClass : UInt16
  familyClass : Int16
  codePageRange1 : UInt32
  codePageRange2 : UInt32
  panose : Panose
deriving DecidableEq

namespace Typeface

/-- The part of a classification that all versions have, with the version 1. -/
def fixedBytes (typeface : Typeface) : Bytes :=
  bigEndianOf 2 (1 : UInt16).toNat ++ List.replicate 2 0 ++
    bigEndianOf 2 typeface.weightClass.toNat ++ bigEndianOf 2 5 ++ List.replicate 22 0 ++
    bigEndianOf 2 typeface.familyClass.toUInt16.toNat ++ typeface.panose.toBytes ++
    List.replicate 36 0

/-- The 86 bytes of a classification of version 1. -/
def bytes (typeface : Typeface) : Bytes :=
  typeface.fixedBytes ++ bigEndianOf 4 typeface.codePageRange1.toNat ++
    bigEndianOf 4 typeface.codePageRange2.toNat

/-- What is read from the bytes of a typeface. -/
def os2 (typeface : Typeface) : Os2 where
  weightClass := typeface.weightClass
  familyClass := typeface.familyClass
  codePageRange1 := some typeface.codePageRange1
  codePageRange2 := some typeface.codePageRange2
  panose := some typeface.panose

theorem length_fixedBytes (typeface : Typeface) : typeface.fixedBytes.length = 78 := by
  simp [fixedBytes, Panose.toBytes]

theorem ofBytes?_bytes (typeface : Typeface) : Os2.ofBytes? typeface.bytes = some typeface.os2 := by
  have isFixed : Bytes.slice? typeface.bytes 0 78 = some typeface.fixedBytes := by
    rw [bytes, List.append_assoc, ← typeface.length_fixedBytes]
    exact slice?_zero typeface.fixedBytes _
  have version : Bytes.u16At? typeface.fixedBytes 0 = some 1 :=
    u16At?_of_eq [] _ (by simp only [fixedBytes, List.append_assoc]; rfl) rfl
  have weight : Bytes.u16At? typeface.fixedBytes 4 = some typeface.weightClass :=
    u16At?_of_eq (bigEndianOf 2 (1 : UInt16).toNat ++ List.replicate 2 0) _
      (by simp only [fixedBytes, List.append_assoc]; rfl) (by simp)
  have family : Bytes.u16At? typeface.fixedBytes 30 = some typeface.familyClass.toUInt16 :=
    u16At?_of_eq (bigEndianOf 2 (1 : UInt16).toNat ++ List.replicate 2 0 ++
      bigEndianOf 2 typeface.weightClass.toNat ++ bigEndianOf 2 5 ++ List.replicate 22 0) _
      (by simp only [fixedBytes, List.append_assoc]; rfl) (by simp)
  have panose : (typeface.fixedBytes.drop 32).take 10 = typeface.panose.toBytes :=
    take_drop_of_eq (bigEndianOf 2 (1 : UInt16).toNat ++ List.replicate 2 0 ++
      bigEndianOf 2 typeface.weightClass.toNat ++ bigEndianOf 2 5 ++ List.replicate 22 0 ++
      bigEndianOf 2 typeface.familyClass.toUInt16.toNat) (List.replicate 36 0)
      (by simp only [fixedBytes, List.append_assoc]) (by simp) rfl
  have first : Bytes.u32At? typeface.bytes 78 = some typeface.codePageRange1 :=
    u32At?_of_eq typeface.fixedBytes (bigEndianOf 4 typeface.codePageRange2.toNat)
      (by simp only [bytes, List.append_assoc]) typeface.length_fixedBytes
  have second : Bytes.u32At? typeface.bytes 82 = some typeface.codePageRange2 :=
    u32At?_of_eq (typeface.fixedBytes ++ bigEndianOf 4 typeface.codePageRange1.toNat) []
      (by simp only [bytes, List.append_assoc, List.append_nil])
      (by simp [typeface.length_fixedBytes])
  have isNew : (1 : UInt16) ≤ 1 := UInt16.le_refl 1
  simp only [Os2.ofBytes?, isFixed, Option.bind_eq_bind, Option.bind_some, version, weight, family,
    panose, if_pos isNew, first, second, Panose.ofBytes?_toBytes, Int16.toInt16_toUInt16]
  rfl

theorem os2?_of_table? {font : Font} {typeface : Typeface}
    (isTable : font.table? .os2 = some typeface.bytes) : font.os2? = some typeface.os2 := by
  simp only [Font.os2?, isTable, Option.bind_eq_bind, Option.bind_some, ofBytes?_bytes]

end Typeface

end Sfnt

end FontCatalog
