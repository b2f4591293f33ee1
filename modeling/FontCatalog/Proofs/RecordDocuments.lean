import FontCatalog.Proofs.JsonDocuments
import FontCatalog.Proofs.RecordFields
import FontCatalog.Proofs.Utf8RoundTrip
import FontCatalog.Record.Document

/-!
# Records as they are written

The document of a record is an object that gives the record, with the fields in a fixed order. Only
the path of its file may have no text, and then neither has the document.
-/

namespace FontCatalog

open Json

theorem spelling_string (chars : List Char) (style : Style) (depth : Nat) :
    spelling (Document.string chars style depth) = quoted (chars.flatMap escapeChar) :=
  Document.spelling_literal _ style depth

theorem encodesOptional_document {α : Type} {encodedBy : α → List Char → Prop}
    {documentOf : α → Document} {style : Style} {depth : Nat}
    (encodes : ∀ held, encodedBy held (spelling (documentOf held style depth))) (held : Option α) :
    FontRecord.EncodesOptional encodedBy held
      (spelling (Document.optional documentOf held style depth)) := by
  cases held with
  | none => exact Document.spelling_literal _ style depth
  | some held => exact encodes held

/-! ## PANOSE digits -/

namespace Panose

variable (panose : Panose)

theorem legible_document : panose.document.Legible := by
  apply Document.legible_array
  intro document inside
  rcases List.mem_map.mp inside with ⟨digit, -, rfl⟩
  exact Document.legible_integer _

theorem encodedBy_document (style : Style) (depth : Nat) :
    panose.EncodedBy (spelling (panose.document style depth)) := by
  rcases Document.exists_spelling_array
    (panose.toBytes.map fun digit => Document.integer digit.toNat) style depth with ⟨last, isArray⟩
  refine ⟨_, last, isArray, ?_⟩
  rw [List.map_map, List.map_map]
  apply List.map_congr_left
  intro digit _
  exact Document.spelling_literal _ style (depth + 1)

end Panose

/-! ## Character collections -/

namespace CidSystemInfo

variable (info : CidSystemInfo)

/-- The fields in the order in which they are written. -/
def Field.all : List Field :=
  [registry, ordering, supplement]

/-- What is written for a field of a character collection. -/
def fieldDocument : Field → Document
  | .registry => Document.string info.registry.toList
  | .ordering => Document.string info.ordering.toList
  | .supplement => Document.integer info.supplement.toInt

theorem document_eq : info.document = Document.object
    (Field.all.map fun field => (field.name, info.fieldDocument field)) := rfl

theorem legible_fieldDocument (field : Field) : (info.fieldDocument field).Legible := by
  cases field with
  | registry | ordering => exact Document.legible_string _
  | supplement => exact Document.legible_integer _

theorem encodes_fieldDocument (field : Field) (style : Style) (depth : Nat) :
    info.Encodes field (spelling (info.fieldDocument field style depth)) := by
  cases field with
  | registry | ordering => exact ⟨_, spelling_string _ style depth, spells_flatMap_escapeChar _⟩
  | supplement => exact Document.spelling_literal _ style depth

theorem legible_members :
    ∀ member ∈ Field.all.map fun field => (field.name, info.fieldDocument field),
      member.2.Legible := by
  rw [List.forall_mem_map]
  intro field _
  exact info.legible_fieldDocument field

theorem legible_document : info.document.Legible := by
  rw [document_eq]
  exact Document.legible_object info.legible_members

theorem encodedBy_document (style : Style) (depth : Nat) :
    info.EncodedBy (spelling (info.document style depth)) := by
  refine ⟨_, style.blanks depth, Field.all, ?_,
    Document.isObject_map_member info.legible_members style depth, ?_, ?_⟩
  · rw [document_eq, Document.spelling_object]
  · rw [List.map_map]
    apply Gives.map (by decide)
    · intro field
      exact spells_flatMap_escapeChar field.name.toList
    · intro field
      exact info.encodes_fieldDocument field style (depth + 1)
  · intro field
    cases field <;> decide

end CidSystemInfo

/-! ## Records -/

namespace FontRecord

variable (record : FontRecord)

/-- The fields in the order in which they are written. -/
def Field.all : List Field :=
  [file, format, postscriptName, cidSystemInfo, weightClass, familyClass, codePageRange1,
    codePageRange2, macStyle, panose]

/-- What is written for a field of a record. -/
def fieldDocument : Field → Document
  | .file => Document.path record.file.text?
  | .format => Document.string record.format.shortName.toList
  | .postscriptName => Document.string record.postscriptName.toList
  | .cidSystemInfo => Document.optional CidSystemInfo.document record.cidSystemInfo
  | .weightClass => Document.integer record.weightClass.toInt
  | .familyClass => Document.integer record.familyClass.toInt
  | .codePageRange1 => Document.integer record.codePageRange1.toNat
  | .codePageRange2 => Document.integer record.codePageRange2.toNat
  | .macStyle => Document.integer record.macStyle.toInt
  | .panose => Document.optional Panose.document record.panose

theorem document_eq : record.document = Document.object
    (Field.all.map fun field => (field.name, record.fieldDocument field)) := rfl

variable {record} (isText : record.file.text?.isSome)

include isText

/-- A path that is a text is written as that text, which spells its bytes. -/
theorem exists_document_path_eq :
    ∃ chars, Document.path record.file.text? = Document.string chars ∧
      Path.ofText chars = record.file := by
  rcases Option.isSome_iff_exists.mp isText with ⟨chars, isChars⟩
  refine ⟨chars, ?_, ?_⟩
  · rw [isChars]
    rfl
  · rw [Path.ofText, Text.Utf8.encode_eq_of_decode? isChars]

theorem legible_fieldDocument (field : Field) : (record.fieldDocument field).Legible := by
  cases field with
  | file =>
      rcases exists_document_path_eq isText with ⟨chars, isString, -⟩
      rw [fieldDocument, isString]
      exact Document.legible_string chars
  | format | postscriptName => exact Document.legible_string _
  | cidSystemInfo => exact Document.legible_optional CidSystemInfo.legible_document _
  | panose => exact Document.legible_optional Panose.legible_document _
  | weightClass | familyClass | codePageRange1 | codePageRange2 | macStyle =>
      exact Document.legible_integer _

theorem encodes_fieldDocument (field : Field) (style : Style) (depth : Nat) :
    record.Encodes field (spelling (record.fieldDocument field style depth)) := by
  cases field with
  | file =>
      rcases exists_document_path_eq isText with ⟨chars, isString, isFile⟩
      rw [fieldDocument, isString]
      exact ⟨_, chars, spelling_string chars style depth, spells_flatMap_escapeChar chars, isFile⟩
  | format | postscriptName =>
      exact ⟨_, spelling_string _ style depth, spells_flatMap_escapeChar _⟩
  | cidSystemInfo =>
      exact encodesOptional_document (fun info => info.encodedBy_document style depth) _
  | panose => exact encodesOptional_document (fun panose => panose.encodedBy_document style depth) _
  | weightClass | familyClass | codePageRange1 | codePageRange2 | macStyle =>
      exact Document.spelling_literal _ style depth

theorem legible_members :
    ∀ member ∈ Field.all.map fun field => (field.name, record.fieldDocument field),
      member.2.Legible := by
  rw [List.forall_mem_map]
  intro field _
  exact legible_fieldDocument isText field

theorem legible_document : record.document.Legible := by
  rw [document_eq]
  exact Document.legible_object (legible_members isText)

theorem encodedBy_document (style : Style) (depth : Nat) :
    record.EncodedBy (spelling (record.document style depth)) := by
  refine ⟨_, style.blanks depth, ?_,
    Document.isObject_map_member (legible_members isText) style depth, Field.all, ?_, ?_⟩
  · rw [document_eq, Document.spelling_object]
  · rw [List.map_map]
    apply Gives.map (by decide)
    · intro field
      exact spells_flatMap_escapeChar field.name.toList
    · intro field
      exact encodes_fieldDocument isText field style (depth + 1)
  · intro field
    cases field <;> exact Or.inl (by decide)

end FontRecord

end FontCatalog
