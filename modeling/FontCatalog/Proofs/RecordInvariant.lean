import FontCatalog.Catalog
import FontCatalog.Proofs.Contributions
import FontCatalog.Proofs.FaceTables
import FontCatalog.Proofs.ScanThenLoad
import Mathlib.Data.FinEnum
import Mathlib.Data.List.TakeWhile

/-!
# What holds of every record

The name of a record is trimmed and not empty, whichever table or program it was read from. The
records of Type 1 fonts are those of `.pfb` files, and those with the style -1. A family class of -1
is legal, so it does not tell whether there is a classification of the typeface; a weight class of
-1 does, and so does the absence of PANOSE digits.
-/

namespace FontCatalog

/-! ## Trimmed texts -/

namespace Text

theorem eq_false_of_head?_dropWhile {isBlank : Char → Bool} {text : List Char} {char : Char}
    (isHead : (text.dropWhile isBlank).head? = some char) : isBlank char = false := by
  have notBlank := List.head?_dropWhile_not isBlank text
  rwa [isHead] at notBlank

theorem isTrimmed_trim (text : List Char) : IsTrimmed (trim text) := by
  constructor
  · intro char isHead
    simp only [trim, trimBy, trimEndBy] at isHead
    -- What is left of the text is a start of what is left after trimming its start.
    have isPrefix : ((text.dropWhile isWhiteSpace).reverse.dropWhile isWhiteSpace).reverse <+:
        text.dropWhile isWhiteSpace := by
      rw [← List.reverse_suffix, List.reverse_reverse]
      apply List.dropWhile_suffix
    rcases isPrefix with ⟨rest, isText⟩
    have isTextHead : (text.dropWhile isWhiteSpace).head? = some char := by
      rw [← isText, List.head?_append, isHead]
      rfl
    exact eq_false_of_head?_dropWhile isTextHead
  · intro char isLast
    simp only [trim, trimBy, trimEndBy, List.getLast?_reverse] at isLast
    exact eq_false_of_head?_dropWhile isLast

theorem isTrimmed_of_forall {text : List Char} (solid : ∀ char ∈ text, isWhiteSpace char = false) :
    IsTrimmed text where
  starts := fun char isHead => solid char (List.mem_of_head? isHead)
  ends := fun char isLast => solid char (List.mem_of_getLast? isLast)

end Text

/-! ## Names -/

namespace Sfnt

open Text

/-- The choice so far, if there is one, is a trimmed text. -/
def NameTable.TrimmedChoice (best : Option (Nat × List Char)) : Prop :=
  ∀ rank text, best = some (rank, text) → text ≠ [] ∧ IsTrimmed text

theorem NameTable.TrimmedChoice.choose {best : Option (Nat × List Char)}
    (held : TrimmedChoice best) (strings : Bytes) (nameId : NameId) (record : NameRecord) :
    TrimmedChoice (choose strings nameId best record) := by
  simp only [NameTable.choose]
  split
  · exact held
  · split
    · exact held
    · split
      · exact held
      · split
        · exact held
        · split
          · exact held
          · rename_i notEmpty
            intro rank text chosen
            cases chosen
            exact ⟨notEmpty, isTrimmed_trim _⟩

theorem NameTable.name?_isTrimmed {table : NameTable} {nameId : NameId} {name : String}
    (found : table.name? nameId = some name) : name ≠ "" ∧ IsTrimmed name.toList := by
  have trimmedChoice : TrimmedChoice (table.records.foldl (choose table.strings nameId) none) := by
    apply List.foldlRecOn (motive := TrimmedChoice)
    · intro rank text impossible
      cases impossible
    · intro best held record _
      exact held.choose table.strings nameId record
  simp only [name?, Option.map_eq_some_iff] at found
  rcases found with ⟨⟨rank, text⟩, chosen, rfl⟩
  rcases trimmedChoice rank text chosen with ⟨notEmpty, isTrimmed⟩
  constructor
  · simpa using notEmpty
  · simpa using isTrimmed

theorem Font.name?_isTrimmed {font : Font} {nameId : NameId} {name : String}
    (found : font.name? nameId = some name) : name ≠ "" ∧ IsTrimmed name.toList := by
  simp only [name?, Option.bind_eq_bind, Option.bind_eq_some_iff] at found
  rcases found with ⟨table, -, isName⟩
  exact NameTable.name?_isTrimmed isName

end Sfnt

namespace Type1

theorem Dictionary.nameUnder?_isName {key : Key} {text : List Char} {value : String}
    (found : nameUnder? key text = some value) :
    value ≠ "" ∧ ∀ char ∈ value.toList, isNameChar char = true := by
  simp only [nameUnder?, Option.bind_eq_bind, Option.bind_eq_some_iff, Option.pure_def,
    Option.some.injEq] at found
  rcases found with ⟨rest, -, literal, isLiteral, rfl⟩
  simp only [literalName?] at isLiteral
  split at isLiteral
  · split at isLiteral
    · cases isLiteral
    · rename_i notEmpty
      cases isLiteral
      refine ⟨by simpa using notEmpty, ?_⟩
      intro char inside
      rw [String.toList_ofList] at inside
      exact List.mem_takeWhile_imp inside
  · cases isLiteral

theorem Font.name_isName {data : Bytes} {font : Font} (parsed : Font.ofBytes data = .ok font) :
    font.name ≠ "" ∧ ∀ char ∈ font.name.toList, Dictionary.isNameChar char = true := by
  simp only [ofBytes] at parsed
  split at parsed
  · cases parsed
  · simp only [ofSegments] at parsed
    split at parsed
    · split at parsed
      · cases parsed
      · rename_i name isName
        cases parsed
        exact Dictionary.nameUnder?_isName isName
    · cases parsed

end Type1

/-! ## Numbers -/

namespace Gcid

theorem low_masked : ∀ low : UInt8,
    low.toInt8.toInt32 &&& (-256) = if 0x80 ≤ low then -256 else 0 := by
  decide +kernel

/-- The first byte of a supplement, moved up by eight bits. -/
def high (byte : UInt8) : Int32 :=
  byte.toInt8.toInt32 <<< 8

theorem high_masked : ∀ byte : UInt8, high byte &&& (-256) = high byte := by
  decide +kernel

theorem high_bounds : ∀ byte : UInt8, (256 : Int) ∣ (high byte).toInt ∧
    -32768 ≤ (high byte).toInt ∧ (high byte).toInt ≤ 32512 := by
  decide +kernel

/-- The second byte decides by its sign whether the first one counts. -/
theorem supplement_eq (first second : UInt8) :
    supplement first second = if 0x80 ≤ second then high first else 0 := by
  have isMasked : supplement first second =
      high first &&& (second.toInt8.toInt32 &&& (-256)) := by
    rw [Int32.and_comm second.toInt8.toInt32, ← Int32.and_assoc, high_masked]
    rfl
  rw [isMasked, low_masked]
  split
  · exact high_masked first
  · exact Int32.and_zero

theorem supplement_bounds {bytes : Bytes} {info : CidSystemInfo}
    (isInfo : read bytes = .ok info) :
    (256 : Int) ∣ info.supplement.toInt ∧ -32768 ≤ info.supplement.toInt ∧
      info.supplement.toInt ≤ 32512 := by
  simp only [read] at isInfo
  split at isInfo
  · cases isInfo
  · cases isInfo
    simp only [supplement_eq]
    split
    · exact high_bounds _
    · decide

end Gcid

theorem toInt_ofNat_toNat (number : UInt16) :
    (Int32.ofNat number.toNat).toInt = number.toNat := by
  apply Int32.toInt_ofNat_of_lt
  have := number.toNat_lt
  omega

theorem ofNat_toNat_ne (number : UInt16) : Int32.ofNat number.toNat ≠ -1 := by
  intro same
  have isNegative := congrArg Int32.toInt same
  rw [toInt_ofNat_toNat] at isNegative
  have : (-1 : Int32).toInt = -1 := rfl
  omega

theorem Panose.isSome_ofBytes? {bytes : Bytes} (isTen : bytes.length = 10) :
    (ofBytes? bytes).isSome := by
  match bytes, isTen with
  | [_, _, _, _, _, _, _, _, _, _], _ => rfl

/-- A classification of a typeface always has its PANOSE digits. -/
theorem Sfnt.Os2.isSome_panose {bytes : Bytes} {os2 : Os2} (found : ofBytes? bytes = some os2) :
    os2.panose.isSome := by
  simp only [ofBytes?, Option.bind_eq_bind, Option.bind_eq_some_iff, Option.pure_def,
    Option.some.injEq, Bytes.slice?] at found
  rcases found with ⟨fixed, isFixed, version, -, weightClass, -, familyClass, -, rfl⟩
  apply Panose.isSome_ofBytes?
  split at isFixed
  · rename_i fits
    cases isFixed
    simp only [List.length_take, List.length_drop]
    omega
  · cases isFixed

/-! ## Records -/

/-- What holds of the record of a font that is not a Type 1 font. -/
structure FontRecord.SfntSound (record : FontRecord) : Prop where
  macStyle : 0 ≤ record.macStyle.toInt ∧ record.macStyle.toInt ≤ 65535
  familyClass : -32768 ≤ record.familyClass.toInt ∧ record.familyClass.toInt ≤ 32767
  weightClass : record.weightClass = -1 ∨
    0 ≤ record.weightClass.toInt ∧ record.weightClass.toInt ≤ 65535
  weightClass_iff : record.weightClass = -1 ↔ record.panose = none
  unclassified : record.weightClass = -1 →
    record.familyClass = -1 ∧ record.codePageRange1 = 0 ∧ record.codePageRange2 = 0
  supplement : record.format = .trueType → ∀ info, record.cidSystemInfo = some info →
    (256 : Int) ∣ info.supplement.toInt ∧ -32768 ≤ info.supplement.toInt ∧
      info.supplement.toInt ≤ 32512

/-- What holds of every record of a catalog. -/
structure FontRecord.Sound (record : FontRecord) : Prop where
  name_ne_empty : record.postscriptName ≠ ""
  name_isTrimmed : Text.IsTrimmed record.postscriptName.toList
  type1_iff_classify : record.format = .type1 ↔ record.file.classify = .type1
  type1_iff_macStyle : record.format = .type1 ↔ record.macStyle = -1
  type1 : record.format = .type1 →
    record = .ofType1 record.file record.postscriptName ∧
      ∀ char ∈ record.postscriptName.toList,
        Text.isWhiteSpace char = false ∧ char ∉ "()[]\x7b\x7d<>%/".toList
  sfnt : record.format ≠ .type1 → record.SfntSound

namespace Face

variable {Fault : Type} {face : Face Fault} {file : Path} {name : String} {style : UInt16}
  {format : FontFormat} {info : Option CidSystemInfo}

theorem supplement_of_trueType (isFormat : face.formatAndCollection = .ok (.trueType, info))
    {held : CidSystemInfo} (isHeld : info = some held) :
    (256 : Int) ∣ held.supplement.toInt ∧ -32768 ≤ held.supplement.toInt ∧
      held.supplement.toInt ≤ 32512 := by
  subst isHeld
  simp only [formatAndCollection] at isFormat
  split at isFormat
  · cases isFormat
  · cases isFormat
  · split at isFormat
    · cases isFormat
    · split at isFormat
      · cases isFormat
      · rename_i isInfo
        cases isFormat
        exact Gcid.supplement_bounds isInfo

theorem sfntSound_record (file : Path) (name : String) (style : UInt16)
    (hasPanose : ∀ os2, face.os2 = some os2 → os2.panose.isSome)
    (isFormat : face.formatAndCollection = .ok (format, info)) :
    (face.record file name style format info).SfntSound := by
  have ofUnsigned (number : UInt16) : 0 ≤ (Int32.ofNat number.toNat).toInt ∧
      (Int32.ofNat number.toNat).toInt ≤ 65535 := by
    have := number.toNat_lt
    rw [toInt_ofNat_toNat]
    omega
  have supplement : format = .trueType → ∀ held, info = some held →
      (256 : Int) ∣ held.supplement.toInt ∧ -32768 ≤ held.supplement.toInt ∧
        held.supplement.toInt ≤ 32512 := by
    intro isTrueType held isHeld
    exact supplement_of_trueType (isTrueType ▸ isFormat) isHeld
  cases isOs2 : face.os2 with
  | none =>
      constructor
      · exact ofUnsigned style
      · simp [record, isOs2]
      · simp [record, isOs2]
      · simp [record, isOs2]
      · simp [record, isOs2]
      · exact supplement
  | some os2 =>
      rcases Option.isSome_iff_exists.mp (hasPanose os2 isOs2) with ⟨panose, isPanose⟩
      have notAbsent := ofNat_toNat_ne os2.weightClass
      constructor
      · exact ofUnsigned style
      · have lower := os2.familyClass.le_toInt
        have upper := os2.familyClass.toInt_lt
        simp only [record, isOs2, Option.map_some, Option.getD_some, Int16.toInt_toInt32]
        omega
      · right
        simpa [record, isOs2] using ofUnsigned os2.weightClass
      · simp [record, isOs2, isPanose, notAbsent]
      · simp [record, isOs2, notAbsent]
      · exact supplement

end Face

namespace FontRecord

variable {files : FileSystem} {file : Path} {record : FontRecord}

theorem sound_of_describes {font : Sfnt.Font} (described : font.Describes file record)
    (notType1 : file.classify ≠ .type1) : record.Sound := by
  have isFile := described.file_eq
  have otherFormat := described.format_ne_type1
  rcases Sfnt.Font.name?_isTrimmed described.postscriptName?_eq with ⟨notEmpty, isTrimmed⟩
  have sfnt : record.SfntSound := by
    rcases described.face_examine with ⟨family, subfamily, examined⟩
    rcases Face.exists_of_examine_eq_described examined with
      ⟨name, style, format, info, -, -, isFormat, rfl⟩
    apply Face.sfntSound_record
    · intro os2 isOs2
      simp only [Sfnt.Font.face, Sfnt.Font.os2?, Option.bind_eq_bind,
        Option.bind_eq_some_iff] at isOs2
      rcases isOs2 with ⟨bytes, -, found⟩
      exact Sfnt.Os2.isSome_panose found
    · exact isFormat
  have style_ne : record.macStyle ≠ -1 := by
    intro isAbsent
    have := sfnt.macStyle.1
    rw [isAbsent] at this
    exact absurd this (by decide)
  constructor
  · exact notEmpty
  · exact isTrimmed
  · simp [otherFormat, isFile, notType1]
  · simp [otherFormat, style_ne]
  · intro isType1
    exact absurd isType1 otherFormat
  · intro _
    exact sfnt

theorem sound_ofType1 {data : Bytes} {font : Type1.Font} (kind : file.classify = .type1)
    (parsed : Type1.Font.ofBytes data = .ok font) : (ofType1 file font.name).Sound := by
  rcases Type1.Font.name_isName parsed with ⟨notEmpty, isName⟩
  have solid : ∀ char ∈ font.name.toList, Text.isWhiteSpace char = false ∧
      char ∉ "()[]\x7b\x7d<>%/".toList := by
    intro char inside
    have := isName char inside
    simp [Type1.Dictionary.isNameChar, Type1.Dictionary.isDelimiter] at this ⊢
    tauto
  constructor
  · exact notEmpty
  · exact Text.isTrimmed_of_forall fun char inside => (solid char inside).1
  · simp [ofType1, kind]
  · simp [ofType1]
  · intro _
    exact ⟨rfl, solid⟩
  · intro other
    exact absurd rfl other

theorem sound_of_origin (origin : Extraction.Origin files file record) : record.Sound := by
  cases origin with
  | simple kind held parsed described =>
      exact sound_of_describes described (by simp [kind])
  | collection kind held parsed readable described =>
      exact sound_of_describes described (by simp [kind])
  | type1 kind held parsed named =>
      subst named
      exact sound_ofType1 kind parsed

end FontRecord

/-- Every record of a catalog names one of the files that were scanned, and is sound. -/
theorem Catalog.sound_of_mem_records {files : FileSystem} {paths : List Path} {record : FontRecord}
    (listed : record ∈ (ofFiles files paths).1.records) : record.file ∈ paths ∧ record.Sound := by
  simp only [ofFiles, Extraction.records_ofFiles, List.mem_flatMap] at listed
  rcases listed with ⟨path, present, extracted⟩
  have origin := Extraction.origin_of_mem_records extracted
  constructor
  · rw [origin.file_eq]
    exact present
  · exact FontRecord.sound_of_origin origin

theorem Catalog.sound_of_mem_records_specimen :
    Specimen.record ∈ (ofFiles Specimen.files [Specimen.file]).1.records ∧
      Specimen.record.file ∈ [Specimen.file] ∧ Specimen.record.Sound := by
  have listed : Specimen.record ∈ (ofFiles Specimen.files [Specimen.file]).1.records := by
    simp [ofFiles, Extraction.records_ofFiles, Specimen.records_ofFile]
  exact ⟨listed, sound_of_mem_records listed⟩

end FontCatalog
