import FontCatalog.Json.Reader
import FontCatalog.Record

/-!
# Reading records from JSON

A record is read from an object, whose members may stand in any order and among other members, or
from an array of its fields in their fixed order. The character collection and the PANOSE digits
may be left out; every other field has to be there, and no field may occur twice.
-/

namespace FontCatalog

open Json

/-! ## Formats and PANOSE digits -/

/-- The format with a short name. -/
def FontFormat.named (name : List Char) : Except Fault FontFormat :=
  match FontFormat.ofShortName? (String.ofList name) with
  | some format => .ok format
  | none => .error (.unknownFormat name)

/-- Reads a format: its short name, or an object with the short name as the key of `null`. -/
def FontFormat.read : Reader FontFormat := fun text =>
  match skipBlanks text with
  | [] => .error .endInValue
  | '"' :: rest => do
      let (name, others) ← readString rest
      let format ← FontFormat.named name
      .ok (format, others)
  | '\x7b' :: rest => do
      let (name, afterName) ← readFirstKey rest
      let format ← FontFormat.named name
      let afterColon ← readColon afterName
      let (_, afterNull) ← readNull afterColon
      match skipBlanks afterNull with
      | [] => .error .endInObject
      | '\x7d' :: others => .ok (format, others)
      | _ => .error .expectedValue
  | _ => .error .expectedValue

/-- Reads PANOSE digits: an array of ten bytes. -/
def Panose.read : Reader Panose := fun text =>
  match skipBlanks text with
  | '[' :: rest => do
      let expected := Expected.tenBytes.phrase
      let (digits, afterDigits) ← readExactly readByte expected 0 10 rest
      let others ← endArray afterDigits
      match Panose.ofBytes? digits with
      | some panose => .ok (panose, others)
      | none => .error (.invalidLength digits.length expected)
  | rest => .error (unsuitable .tenBytes rest)

/-- Reads a string as a value of another type. -/
def readAs {α : Type} (expected : Expected) (make : List Char → α) : Reader α := fun text => do
  let (value, rest) ← readText expected text
  .ok (make value, rest)

/-! ## Fields in order -/

/-- Reads the field at a place of an array of fields. The field has to be there. -/
def readField {α : Type} (expected : String) (place : Nat) (reader : Reader α) : Reader α :=
  fun text => do
    let (field, rest) ← readElement? reader (place = 0) text
    match field with
    | some value => .ok (value, rest)
    | none => .error (.invalidLength place expected)

/-- Reads the field at a place of an array of fields, if the array is long enough. -/
def readOptionalField {α : Type} (place : Nat) (reader : Reader (Option α)) :
    Reader (Option α) := fun text => do
  let (field, rest) ← readElement? reader (place = 0) text
  .ok (field.getD none, rest)

/-! ## Character collections -/

namespace CidSystemInfo

/-- The fields of a character collection that have been read. -/
structure Draft where
  registry : Option String
  ordering : Option String
  supplement : Option Int32

/-- Takes in one member. -/
def Draft.readMember (draft : Draft) (key : List Char) : Reader Draft := fun text =>
  match String.ofList key with
  | "registry" => do
      let (value, rest) ← readOnce "registry" draft.registry (readAs .text String.ofList) text
      .ok ({ draft with registry := some value }, rest)
  | "ordering" => do
      let (value, rest) ← readOnce "ordering" draft.ordering (readAs .text String.ofList) text
      .ok ({ draft with ordering := some value }, rest)
  | "supplement" => do
      let (value, rest) ← readOnce "supplement" draft.supplement readInt32 text
      .ok ({ draft with supplement := some value }, rest)
  | _ => do
      let rest ← skipMember text
      .ok (draft, rest)

/-- The character collection, if every field has been read. -/
def Draft.finish (draft : Draft) : Except Fault CidSystemInfo :=
  match draft.registry, draft.ordering, draft.supplement with
  | none, _, _ => .error (.missingField "registry")
  | _, none, _ => .error (.missingField "ordering")
  | _, _, none => .error (.missingField "supplement")
  | some registry, some ordering, some supplement => .ok ⟨registry, ordering, supplement⟩

/-- The phrase for a character collection with too few fields. -/
def fieldCount : String :=
  Expected.cidSystemInfo.phrase ++ " with 3 elements"

/-- Reads a character collection. -/
def read : Reader CidSystemInfo := fun text =>
  match skipBlanks text with
  | '[' :: rest => do
      let (registry, rest) ← readField fieldCount 0 (readAs .text String.ofList) rest
      let (ordering, rest) ← readField fieldCount 1 (readAs .text String.ofList) rest
      let (supplement, rest) ← readField fieldCount 2 readInt32 rest
      let others ← endArray rest
      .ok (⟨registry, ordering, supplement⟩, others)
  | '\x7b' :: rest => do
      let (draft, afterMembers) ←
        readMembers Draft.readMember (rest.length + 1) true ⟨none, none, none⟩ rest
      let info ← draft.finish
      let others ← endObject afterMembers
      .ok (info, others)
  | rest => .error (unsuitable .cidSystemInfo rest)

end CidSystemInfo

/-! ## Records -/

namespace FontRecord

/-- The fields of a record that have been read. -/
structure Draft where
  file : Option Path
  format : Option FontFormat
  postscriptName : Option String
  cidSystemInfo : Option (Option CidSystemInfo)
  weightClass : Option Int32
  familyClass : Option Int32
  codePageRange1 : Option UInt32
  codePageRange2 : Option UInt32
  macStyle : Option Int32
  panose : Option (Option Panose)

/-- A record of which no field has been read. -/
def Draft.empty : Draft :=
  ⟨none, none, none, none, none, none, none, none, none, none⟩

/-- Takes in one member. -/
def Draft.readMember (draft : Draft) (key : List Char) : Reader Draft := fun text =>
  match String.ofList key with
  | "file" => do
      let (value, rest) ← readOnce "file" draft.file (readAs .pathText Path.ofText) text
      .ok ({ draft with file := some value }, rest)
  | "format" => do
      let (value, rest) ← readOnce "format" draft.format FontFormat.read text
      .ok ({ draft with format := some value }, rest)
  | "postscript_name" => do
      let (value, rest) ←
        readOnce "postscript_name" draft.postscriptName (readAs .text String.ofList) text
      .ok ({ draft with postscriptName := some value }, rest)
  | "cid_system_info" => do
      let (value, rest) ←
        readOnce "cid_system_info" draft.cidSystemInfo (readOptional CidSystemInfo.read) text
      .ok ({ draft with cidSystemInfo := some value }, rest)
  | "weight_class" => do
      let (value, rest) ← readOnce "weight_class" draft.weightClass readInt32 text
      .ok ({ draft with weightClass := some value }, rest)
  | "family_class" => do
      let (value, rest) ← readOnce "family_class" draft.familyClass readInt32 text
      .ok ({ draft with familyClass := some value }, rest)
  | "code_page_range_1" => do
      let (value, rest) ← readOnce "code_page_range_1" draft.codePageRange1 readUInt32 text
      .ok ({ draft with codePageRange1 := some value }, rest)
  | "code_page_range_2" => do
      let (value, rest) ← readOnce "code_page_range_2" draft.codePageRange2 readUInt32 text
      .ok ({ draft with codePageRange2 := some value }, rest)
  | "mac_style" => do
      let (value, rest) ← readOnce "mac_style" draft.macStyle readInt32 text
      .ok ({ draft with macStyle := some value }, rest)
  | "panose" => do
      let (value, rest) ← readOnce "panose" draft.panose (readOptional Panose.read) text
      .ok ({ draft with panose := some value }, rest)
  | _ => do
      let rest ← skipMember text
      .ok (draft, rest)

/-- The value of a field that has to be there. -/
def Draft.require {α : Type} (name : String) : Option α → Except Fault α
  | some value => .ok value
  | none => .error (.missingField name)

/-- The record, if every field that has to be there has been read. -/
def Draft.finish (draft : Draft) : Except Fault FontRecord := do
  let file ← Draft.require "file" draft.file
  let format ← Draft.require "format" draft.format
  let postscriptName ← Draft.require "postscript_name" draft.postscriptName
  let weightClass ← Draft.require "weight_class" draft.weightClass
  let familyClass ← Draft.require "family_class" draft.familyClass
  let codePageRange1 ← Draft.require "code_page_range_1" draft.codePageRange1
  let codePageRange2 ← Draft.require "code_page_range_2" draft.codePageRange2
  let macStyle ← Draft.require "mac_style" draft.macStyle
  .ok
    { file := file
      format := format
      postscriptName := postscriptName
      cidSystemInfo := draft.cidSystemInfo.getD none
      weightClass := weightClass
      familyClass := familyClass
      codePageRange1 := codePageRange1
      codePageRange2 := codePageRange2
      macStyle := macStyle
      panose := draft.panose.getD none }

/-- The phrase for a record with too few fields. -/
def fieldCount : String :=
  Expected.record.phrase ++ " with 10 elements"

/-- Reads the fields of a record in order. -/
def readFields : Reader FontRecord := fun text => do
  let (file, rest) ← readField fieldCount 0 (readAs .pathText Path.ofText) text
  let (format, rest) ← readField fieldCount 1 FontFormat.read rest
  let (postscriptName, rest) ← readField fieldCount 2 (readAs .text String.ofList) rest
  let (cidSystemInfo, rest) ← readOptionalField 3 (readOptional CidSystemInfo.read) rest
  let (weightClass, rest) ← readField fieldCount 4 readInt32 rest
  let (familyClass, rest) ← readField fieldCount 5 readInt32 rest
  let (codePageRange1, rest) ← readField fieldCount 6 readUInt32 rest
  let (codePageRange2, rest) ← readField fieldCount 7 readUInt32 rest
  let (macStyle, rest) ← readField fieldCount 8 readInt32 rest
  let (panose, rest) ← readOptionalField 9 (readOptional Panose.read) rest
  .ok
    ({ file := file
       format := format
       postscriptName := postscriptName
       cidSystemInfo := cidSystemInfo
       weightClass := weightClass
       familyClass := familyClass
       codePageRange1 := codePageRange1
       codePageRange2 := codePageRange2
       macStyle := macStyle
       panose := panose },
      rest)

/-- Reads a record. -/
def read : Reader FontRecord := fun text =>
  match skipBlanks text with
  | '[' :: rest => do
      let (record, afterFields) ← readFields rest
      let others ← endArray afterFields
      .ok (record, others)
  | '\x7b' :: rest => do
      let (draft, afterMembers) ←
        readMembers Draft.readMember (rest.length + 1) true Draft.empty rest
      let record ← draft.finish
      let others ← endObject afterMembers
      .ok (record, others)
  | rest => .error (unsuitable .record rest)

/-- Reads an array of records. -/
def readArray : Reader (List FontRecord) := fun text =>
  match skipBlanks text with
  | '[' :: rest => do
      let (records, afterElements) ← readElements read (rest.length + 1) true rest
      let others ← endArray afterElements
      .ok (records, others)
  | _ => .error .expectedValue

end FontRecord

end FontCatalog
