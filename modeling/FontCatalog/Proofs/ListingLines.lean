import FontCatalog.Proofs.LimitedExport
import FontCatalog.Proofs.RecognizedPaths
import FontCatalog.Proofs.RecordInvariant
import FontCatalog.Proofs.SfntRoundTrip

/-!
# The lines of a listing

A listing has a line for each record unless a name has a line feed in it. Names of Type 1 fonts have
none, since they end at the first white space, and neither has the path of a record, since a
decoded line feed comes from a byte that is one. The name of an sfnt font is trimmed at its ends
only, so line feeds inside stay, and each of them breaks the line of its record in two.
-/

namespace FontCatalog

/-! ## ASCII characters of decoded bytes -/

namespace Text.Utf8

variable {char : Char} {bytes : Bytes}

/-- What an unfinished sequence becomes lies beyond ASCII. -/
def Unfinished.Beyond (sequence : Unfinished) : Prop :=
  0x80 ≤ sequence.lowest ∧
    2 ≤ if sequence.missing = 1 then sequence.value
      else sequence.value * 0x40 + (sequence.lowest - 0x80)

theorem beyond_of_ofLead? {byte : Nat} {sequence : Unfinished}
    (opens : Unfinished.ofLead? byte = some sequence) : sequence.Beyond := by
  simp only [Unfinished.ofLead?] at opens
  repeat' split at opens
  all_goals first
    | (obtain rfl := Option.some.inj opens
       constructor <;> simp
       try omega)
    | cases opens

/-- The character is ASCII and not NUL, which also stands for numbers that are no characters. -/
def IsAscii (char : Char) : Prop :=
  0 < char.toNat ∧ char.toNat < 0x80

instance (char : Char) : Decidable (IsAscii char) :=
  inferInstanceAs (Decidable (_ ∧ _))

theorem not_isAscii_ofNat {code : Nat} (beyond : 0x80 ≤ code) : ¬IsAscii (Char.ofNat code) := by
  rintro ⟨notNull, isLow⟩
  by_cases valid : code.isValidChar
  · rw [toNat_ofNat_of_isCode valid] at isLow
    omega
  · simp [Char.ofNat, valid] at notNull

/-- The only ASCII character that a byte finishes is its own. -/
structure FinishesOwn (byte : UInt8) (result : List (Option Char) × Option Unfinished) : Prop where
  own : ∀ char, some char ∈ result.1 → IsAscii char → char.toNat = byte.toNat
  beyond : ∀ sequence ∈ result.2, sequence.Beyond

theorem finishesOwn_start (byte : UInt8) : FinishesOwn byte (start byte.toNat) := by
  simp only [start]
  split
  · rename_i isLow
    constructor
    · intro char inside _
      simp only [List.mem_singleton, Option.some.injEq] at inside
      rw [inside, toNat_ofNat_of_isCode (Or.inl (by omega))]
    · simp
  · split
    · rename_i opens
      constructor
      · simp
      · rintro _ ⟨⟩
        exact beyond_of_ofLead? opens
    · constructor <;> simp

theorem Unfinished.Beyond.finishesOwn {sequence : Unfinished} (beyond : sequence.Beyond)
    (byte : UInt8) : FinishesOwn byte (sequence.advance byte.toNat) := by
  rcases beyond with ⟨high, enough⟩
  simp only [Unfinished.advance]
  split
  · rename_i fits
    split
    · rename_i isLast
      rw [if_pos isLast] at enough
      constructor
      · intro char inside isAscii
        simp only [List.mem_singleton, Option.some.injEq] at inside
        exact absurd (inside ▸ isAscii) (not_isAscii_ofNat (by omega))
      · simp
    · rename_i notLast
      rw [if_neg notLast] at enough
      constructor
      · simp
      · intro next isNext
        obtain rfl := Option.some.inj isNext
        constructor <;> simp
        split <;> omega
  · have fresh := finishesOwn_start byte
    constructor
    · intro char inside isAscii
      simp only [List.mem_cons, reduceCtorEq, false_or] at inside
      exact fresh.own char inside isAscii
    · exact fresh.beyond

theorem exists_finishesOwn {state : Option Unfinished}
    (beyond : ∀ sequence ∈ state, sequence.Beyond) (byte : UInt8) (rest : Bytes) :
    ∃ finished next, FinishesOwn byte (finished, next) ∧
      decodeFrom state (byte :: rest) = finished ++ decodeFrom next rest := by
  cases state with
  | none => exact ⟨_, _, finishesOwn_start byte, decodeFrom_none_cons byte rest⟩
  | some sequence =>
      exact ⟨_, _, (beyond sequence rfl).finishesOwn byte, decodeFrom_some_cons sequence byte rest⟩

theorem eq_nil_of_decodeFrom_eq_nil {state : Option Unfinished}
    (isNil : decodeFrom state bytes = []) : bytes = [] := by
  cases bytes with
  | nil => rfl
  | cons byte rest =>
      cases state with
      | none => exact absurd isNil (decodeFrom_none_ne_nil byte rest)
      | some sequence => exact absurd isNil (decodeFrom_some_ne_nil sequence (byte :: rest))

/-- An ASCII character that is decoded stands where its byte stands. -/
theorem exists_split_of_decodeFrom {state : Option Unfinished}
    (beyond : ∀ sequence ∈ state, sequence.Beyond) (isAscii : IsAscii char)
    {before after : List (Option Char)}
    (decoded : decodeFrom state bytes = before ++ some char :: after) :
    ∃ bytesBefore bytesAfter, bytes = bytesBefore ++ UInt8.ofNat char.toNat :: bytesAfter ∧
      (after = [] → bytesAfter = []) := by
  induction bytes generalizing state before with
  | nil =>
      have inside : some char ∈ decodeFrom state [] := by simp [decoded]
      cases state <;> simp [decodeFrom] at inside
  | cons byte rest ih =>
      rcases exists_finishesOwn beyond byte rest with ⟨finished, next, ⟨own, nextBeyond⟩, isDecoded⟩
      rw [isDecoded, List.append_eq_append_iff] at decoded
      -- The character is finished by a later byte or by this one.
      rcases decoded with ⟨skipped, -, later⟩ | ⟨unskipped, isFinished, isAfter⟩
      · rcases ih nextBeyond later with ⟨bytesBefore, bytesAfter, rfl, isLast⟩
        exact ⟨byte :: bytesBefore, bytesAfter, rfl, isLast⟩
      · cases unskipped with
        | nil =>
            have isLater : decodeFrom next rest = [] ++ some char :: after := isAfter.symm
            rcases ih nextBeyond isLater with ⟨bytesBefore, bytesAfter, rfl, isLast⟩
            exact ⟨byte :: bytesBefore, bytesAfter, rfl, isLast⟩
        | cons finishedChar unfinished =>
            simp only [List.cons_append, List.cons.injEq] at isAfter
            rcases isAfter with ⟨rfl, rfl⟩
            have isByte : char.toNat = byte.toNat := own char (by simp [isFinished]) isAscii
            refine ⟨[], rest, ?_, ?_⟩
            · rw [isByte, UInt8.ofNat_toNat, List.nil_append]
            · intro isLast
              exact eq_nil_of_decodeFrom_eq_nil (List.append_eq_nil_iff.mp isLast).2

theorem exists_split_of_decodeLossy (isAscii : IsAscii char) {before after : List Char}
    (decoded : decodeLossy bytes = before ++ char :: after) :
    ∃ bytesBefore bytesAfter, bytes = bytesBefore ++ UInt8.ofNat char.toNat :: bytesAfter ∧
      (after = [] → bytesAfter = []) := by
  rcases List.map_eq_append_iff.mp decoded with ⟨first, second, isDecoded, -, isSecond⟩
  rcases List.map_eq_cons_iff.mp isSecond with ⟨decodedChar, rest, rfl, isChar, rfl⟩
  have isWhole : decodedChar = some char := by
    cases decodedChar with
    | some _ => exact congrArg some isChar
    | none =>
        -- The replacement character is not ASCII.
        rw [← isChar] at isAscii
        exact absurd isAscii.2 (by decide)
  subst isWhole
  rcases exists_split_of_decodeFrom (by simp) isAscii isDecoded with
    ⟨bytesBefore, bytesAfter, isBytes, isLast⟩
  exact ⟨bytesBefore, bytesAfter, isBytes, fun isNil => isLast (List.map_eq_nil_iff.mp isNil)⟩

end Text.Utf8

/-! ## Paths on display -/

namespace Path

open Text.Utf8

variable {path : Path} {name : Bytes}

theorem lineFeed_not_mem_display (single : 0x0A ∉ path.spelling) :
    '\n' ∉ path.display.toList := by
  intro inside
  rw [display, String.toList_ofList] at inside
  rcases List.append_of_mem inside with ⟨before, after, isDecoded⟩
  rcases exists_split_of_decodeLossy (by decide) isDecoded with
    ⟨bytesBefore, bytesAfter, isSpelling, -⟩
  apply single
  rw [isSpelling]
  simp

theorem carriageReturn_of_getLast?_display (isLast : path.display.toList.getLast? = some '\r') :
    path.spelling.getLast? = some 0x0D := by
  rw [display, String.toList_ofList] at isLast
  rcases List.getLast?_eq_some_iff.mp isLast with ⟨before, isDecoded⟩
  rcases exists_split_of_decodeLossy (by decide) isDecoded with
    ⟨bytesBefore, bytesAfter, isSpelling, isNil⟩
  rw [isSpelling, isNil rfl]
  exact List.getLast?_concat

/-- A path with a carriage return at its end does not name a font file. -/
theorem classify_eq_unrecognized (isLast : path.spelling.getLast? = some 0x0D) :
    path.classify = .unrecognized := by
  by_contra isRecognized
  rcases isNamed_iff.mpr ⟨isRecognized, rfl⟩ with
    ⟨stem, extension, ⟨front, tail, isSpelling, -, -, isTail⟩, -, -, known⟩
  rw [isSpelling] at isLast
  cases isTail with
  | nil =>
      have isEnd : extension.getLast? = some 0x0D := by
        rw [List.append_nil, List.getLast?_append_of_ne_nil _ (by simp),
          List.getLast?_append_of_ne_nil _ (by simp)] at isLast
        rwa [List.getLast?_cons_of_ne_nil known.ne_nil] at isLast
      exact absurd (known.isLetter _ (List.mem_of_getLast? isEnd)).1 (by decide)
  | slash _ =>
      rw [List.getLast?_append_of_ne_nil _ (by simp), List.getLast?_concat] at isLast
      cases isLast
  | slashDot _ =>
      rw [List.getLast?_append_of_ne_nil _ (by simp), List.getLast?_append_of_ne_nil _ (by simp)]
        at isLast
      cases isLast

end Path

/-! ## Lines of records -/

namespace FontRecord

variable {record : FontRecord}

theorem toList_display (record : FontRecord) :
    record.display.toList = record.format.shortName.toList ++ (": ".toList ++
      (record.postscriptName.toList ++ (": ".toList ++ record.file.display.toList))) := by
  simp [display]

theorem count_lineFeed_display (single : 0x0A ∉ record.file.spelling) :
    record.display.toList.count '\n' = record.postscriptName.toList.count '\n' := by
  have inFormat : record.format.shortName.toList.count '\n' = 0 := by
    cases record.format <;> decide
  have inFile : record.file.display.toList.count '\n' = 0 :=
    List.count_eq_zero.mpr (Path.lineFeed_not_mem_display single)
  have between : ": ".toList.count '\n' = 0 := by decide
  simp only [toList_display, List.count_append, inFormat, inFile, between, Nat.zero_add,
    Nat.add_zero]

theorem getLast?_display_ne (isFont : record.file.classify ≠ .unrecognized) :
    record.display.toList.getLast? ≠ some '\r' := by
  intro isLast
  rw [toList_display] at isLast
  simp only [List.getLast?_append] at isLast
  cases ends : record.file.display.toList.getLast? with
  | none =>
      have isSpace : ": ".toList.getLast? = some ' ' := by decide
      rw [ends, isSpace] at isLast
      exact absurd (Option.some.inj isLast) (by decide)
  | some char =>
      rw [ends] at isLast
      cases isLast
      exact isFont (Path.classify_eq_unrecognized (Path.carriageReturn_of_getLast?_display ends))

end FontRecord

namespace Catalog

variable {records : List FontRecord}

/-- The lines of a listing are those of the records one after another. -/
theorem lines_listing (records : List FontRecord) :
    Text.lines (listing ⟨records⟩).toList = records.flatMap fun record =>
      (pieces (· == '\n') record.display.toList).map Text.dropCarriageReturn := by
  rw [Export.toList_listing]
  induction records with
  | nil => rfl
  | cons record records ih =>
      rw [List.flatMap_cons, List.append_assoc, List.singleton_append, Export.lines_append_cons, ih,
        List.flatMap_cons]

theorem length_lines_listing (records : List FontRecord)
    (single : ∀ record ∈ records, 0x0A ∉ record.file.spelling) :
    (Text.lines (listing ⟨records⟩).toList).length = records.length +
      (records.map fun record => record.postscriptName.toList.count '\n').sum := by
  rw [lines_listing]
  induction records with
  | nil => rfl
  | cons record records ih =>
      rw [List.forall_mem_cons] at single
      have own : record.display.toList.countP (· == '\n') =
          record.postscriptName.toList.count '\n' := record.count_lineFeed_display single.1
      simp only [List.flatMap_cons, List.length_append, List.length_map, length_pieces, own,
        ih single.2, List.map_cons, List.sum_cons, List.length_cons]
      omega

/-- A listing has exactly one line for each record when no name has a line feed. -/
theorem lines_listing_iff (single : ∀ record ∈ records, 0x0A ∉ record.file.spelling)
    (areFonts : ∀ record ∈ records, record.file.classify ≠ .unrecognized) :
    Text.lines (listing ⟨records⟩).toList =
        (records.map fun record => record.display.toList) ↔
      ∀ record ∈ records, '\n' ∉ record.postscriptName.toList := by
  constructor
  · intro isLined record member
    have sameLength := congrArg List.length isLined
    rw [length_lines_listing records single, List.length_map] at sameLength
    have noBreak : (records.map fun record =>
        record.postscriptName.toList.count '\n').sum = 0 := by omega
    rw [List.sum_eq_zero_iff_forall_eq_nat] at noBreak
    exact List.count_eq_zero.mp (noBreak _ (List.mem_map_of_mem member))
  · intro unbroken
    rw [lines_listing, List.map_eq_flatMap]
    apply List.flatMap_congr
    intro record member
    have noBreak : '\n' ∉ record.display.toList := by
      rw [← List.count_eq_zero, record.count_lineFeed_display (single record member),
        List.count_eq_zero]
      exact unbroken record member
    rw [Export.pieces_line noBreak, List.map_singleton,
      Export.dropCarriageReturn_eq (record.getLast?_display_ne (areFonts record member))]

/-! ## Catalogs of files -/

/-- What the lines of the listing of a catalog are. Each record has lines of its own, and it has
more than one exactly when its name has line feeds, which the name of a Type 1 font has not. -/
structure ListsInLines (catalog : Catalog) : Prop where
  written : Export.write catalog.records .listing none =
    (⟨Text.Utf8.encode catalog.listing.toList, none⟩, none)
  ends : catalog.records ≠ [] → catalog.listing.toList.getLast? = some '\n'
  lines : Text.lines catalog.listing.toList = catalog.records.flatMap fun record =>
    (pieces (· == '\n') record.display.toList).map Text.dropCarriageReturn
  length_lines : (Text.lines catalog.listing.toList).length = catalog.records.length +
    (catalog.records.map fun record => record.postscriptName.toList.count '\n').sum
  lines_iff : Text.lines catalog.listing.toList = (catalog.records.map fun record =>
      (record.format.shortName ++ ": " ++ record.postscriptName ++ ": " ++
        record.file.display).toList) ↔
    ∀ record ∈ catalog.records, '\n' ∉ record.postscriptName.toList
  type1 : ∀ record ∈ catalog.records, record.format = .type1 →
    '\n' ∉ record.postscriptName.toList

theorem getLast?_listing (nonempty : records ≠ []) :
    (listing ⟨records⟩).toList.getLast? = some '\n' := by
  rcases List.eq_nil_or_concat' records with rfl | ⟨before, last, rfl⟩
  · exact absurd rfl nonempty
  · rw [Export.toList_listing, List.flatMap_append, List.flatMap_singleton, ← List.append_assoc]
    exact List.getLast?_concat

/-- Every record of a catalog comes from one of the files that were scanned. -/
theorem exists_origin {files : FileSystem} {paths : List Path} {record : FontRecord}
    (listed : record ∈ (ofFiles files paths).1.records) :
    ∃ path ∈ paths, Extraction.Origin files path record := by
  simp only [ofFiles, Extraction.records_ofFiles, List.mem_flatMap] at listed
  rcases listed with ⟨path, present, extracted⟩
  exact ⟨path, present, Extraction.origin_of_mem_records extracted⟩

theorem write_listing (records : List FontRecord) :
    Export.write records .listing none =
      (⟨Text.Utf8.encode (listing ⟨records⟩).toList, none⟩, none) := by
  rw [(Export.keepsPrefix (Or.inl rfl) 0).unlimited, Export.map_fst_authored_listing]

theorem listsInLines (files : FileSystem) (paths : List Path)
    (single : ∀ path ∈ paths, 0x0A ∉ path.spelling) :
    ListsInLines (ofFiles files paths).1 := by
  have singleFiles : ∀ record ∈ (ofFiles files paths).1.records, 0x0A ∉ record.file.spelling := by
    intro record listed
    rcases exists_origin listed with ⟨path, present, origin⟩
    rw [origin.file_eq]
    exact single path present
  have areFonts : ∀ record ∈ (ofFiles files paths).1.records,
      record.file.classify ≠ .unrecognized := by
    intro record listed
    rcases exists_origin listed with ⟨path, -, origin⟩
    rw [origin.file_eq]
    cases origin <;> simp [*]
  have unbroken : ∀ record ∈ (ofFiles files paths).1.records, record.format = .type1 →
      '\n' ∉ record.postscriptName.toList := by
    intro record listed isType1 inside
    rcases exists_origin listed with ⟨path, -, origin⟩
    have solid := ((FontRecord.sound_of_origin origin).type1 isType1).2 '\n' inside
    exact absurd solid.1 (by decide)
  exact ⟨write_listing _, getLast?_listing, lines_listing _, length_lines_listing _ singleFiles,
    lines_listing_iff singleFiles areFonts, unbroken⟩

/-! ## A name with a line feed -/

namespace Specimen

open Sfnt

/-- A font whose name goes on after a line feed. -/
def broken : FontDescription :=
  { FontDescription.Specimen.plain with
    version := Font.trueTypeVersion
    postscriptName := "A\nB"
    isVersion := Or.inl rfl
    notEmpty := by decide
    isTrimmed := by decide }

/-- The file of that font. -/
def file : Path :=
  FontDescription.Specimen.singleFile

/-- A directory with that font in it. -/
def files : FileSystem :=
  FontDescription.Specimen.folder file (broken.plan.bytesAt 0)

theorem records_ofFiles : (ofFiles files [file]).1.records = [broken.record file] := by
  have isRead : files.read file = .ok (broken.plan.bytesAt 0) :=
    FontDescription.Specimen.read_singleFile _
  have fits : broken.plan.Fits 0 := FontPlan.fits_of_size (by decide +kernel) (by decide +kernel)
  have namesFit : NameTable.Fits broken.names := ⟨by decide, by decide +kernel⟩
  have extracted := FontDescription.records_simple
    FontDescription.Specimen.classify_singleFile isRead fits namesFit
  simp only [ofFiles, Extraction.records_ofFiles, List.flatMap_singleton]
  exact extracted

end Specimen

theorem listsInLines_specimen :
    (∀ path ∈ [Specimen.file], 0x0A ∉ path.spelling) ∧
      ListsInLines (ofFiles Specimen.files [Specimen.file]).1 := by
  have single : ∀ path ∈ [Specimen.file], 0x0A ∉ path.spelling := by decide
  exact ⟨single, listsInLines Specimen.files [Specimen.file] single⟩

/-- A line feed inside the name of an sfnt font breaks the line of its record. -/
theorem lines_of_broken_name :
    (∀ path ∈ [Specimen.file], 0x0A ∉ path.spelling) ∧
      (ofFiles Specimen.files [Specimen.file]).1.records.length = 1 ∧
      Text.lines (ofFiles Specimen.files [Specimen.file]).1.listing.toList =
        ["TTF: A".toList, "B: a.ttf".toList] := by
  refine ⟨by decide, by rw [Specimen.records_ofFiles]; rfl, ?_⟩
  have isListing : (ofFiles Specimen.files [Specimen.file]).1.listing =
      listing ⟨[Specimen.broken.record Specimen.file]⟩ :=
    congrArg (fun records => listing ⟨records⟩) Specimen.records_ofFiles
  rw [isListing]
  decide

end Catalog

end FontCatalog
