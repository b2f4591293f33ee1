import FontCatalog.Proofs.ExportLines
import FontCatalog.Proofs.RecordFields
import Mathlib.Algebra.Order.Field.Rat
import Mathlib.Tactic.NormNum

/-!
# Tolerant reading

An object is read as a record whichever order its members stand in and whatever else they tell, as
long as it gives every field once. A field that is missing or given twice, a number out of range, an
unknown format and PANOSE digits of another count than ten are not made up for: one of them in one
object, and no record at all is read.
-/

namespace FontCatalog

open Json

/-! ## Numbers out of range -/

namespace Json

/-- The number that an exponent spells. -/
def Exponent.value (exponent : Exponent) : ℤ :=
  if exponent.sign = ['-'] then -(exponent.digits.number : ℤ) else exponent.digits.number

namespace Numeral

variable {numeral : Numeral}

/-- The number that a numeral spells. -/
def value (numeral : Numeral) : ℚ :=
  (if numeral.negative then -1 else 1) *
    (numeral.whole.number +
      numeral.fraction.elim 0 fun digits => (digits.number : ℚ) / 10 ^ digits.chars.length) *
    10 ^ numeral.exponent.elim 0 Exponent.value

theorem value_of_isInteger {value : Int} (isInteger : numeral.IsInteger value) :
    numeral.value = value := by
  rcases isInteger with ⟨noFraction, noExponent, isValue⟩
  rw [Numeral.value, noFraction, noExponent, isValue]
  cases numeral.negative <;> simp

/-- The number lies outside of a range. -/
def LiesOutside (numeral : Numeral) (lowest highest : Int) : Prop :=
  numeral.value < lowest ∨ highest < numeral.value

theorem readInteger_ne {expected : Expected} {lowest highest : Int} {input rest : List Char}
    {result : Int × List Char} (outside : numeral.LiesOutside lowest highest)
    (follows : Follows rest) (opened : skipBlanks input = numeral.chars ++ rest) :
    readInteger expected lowest highest input ≠ .ok result := by
  intro isRead
  rcases numeral.integer_of_readInteger follows opened isRead with ⟨isInteger, inRange, -⟩
  rw [LiesOutside, value_of_isInteger isInteger] at outside
  rcases outside with below | above
  · exact absurd inRange.1 (not_le.mpr (by exact_mod_cast below))
  · exact absurd inRange.2 (not_le.mpr (by exact_mod_cast above))

theorem readInt32_ne {input rest : List Char} {result : Int32 × List Char}
    (outside : numeral.LiesOutside (-0x80000000) 0x7FFFFFFF) (follows : Follows rest)
    (opened : skipBlanks input = numeral.chars ++ rest) : readInt32 input ≠ .ok result := by
  intro isRead
  rcases exists_of_bind isRead with ⟨⟨value, others⟩, isInteger, -⟩
  exact readInteger_ne outside follows opened isInteger

theorem readUInt32_ne {input rest : List Char} {result : UInt32 × List Char}
    (outside : numeral.LiesOutside 0 0xFFFFFFFF) (follows : Follows rest)
    (opened : skipBlanks input = numeral.chars ++ rest) : readUInt32 input ≠ .ok result := by
  intro isRead
  rcases exists_of_bind isRead with ⟨⟨value, others⟩, isInteger, -⟩
  exact readInteger_ne outside follows opened isInteger

end Numeral

end Json

namespace CidSystemInfo

/-- What makes a value no character collection. -/
inductive IsFlawed : List Char → Prop where
  /-- A field is missing or stands there twice. -/
  | fields {members : List Member} (last : Blanks) (isObject : IsObject members)
      (miscounts : Miscounts drafting.name (fun _ => True) members) :
      IsFlawed (objectText members last)
  /-- The supplement is out of range. -/
  | supplement {members : List Member} {member : Member} {numeral : Numeral} (last : Blanks)
      (isObject : IsObject members) (inside : member ∈ members)
      (named : Spells member.key (drafting.name .supplement))
      (isNumeral : member.value = numeral.chars)
      (outside : numeral.LiesOutside (-0x80000000) 0x7FFFFFFF) : IsFlawed (objectText members last)
  /-- The supplement is out of range in an array of the fields. -/
  | third {items : List Item} {item : Item} {numeral : Numeral} (last : Blanks)
      (values : ∀ item ∈ items, IsValue item.value) (isThird : items[2]? = some item)
      (isNumeral : item.value = numeral.chars)
      (outside : numeral.LiesOutside (-0x80000000) 0x7FFFFFFF) : IsFlawed (arrayText items last)

variable {text input rest : List Char} {result : CidSystemInfo × List Char}

theorem IsFlawed.isValue (isFlawed : IsFlawed text) :
    IsValue text ∧ text.head? ≠ some 'n' := by
  cases isFlawed with
  | fields last isObject | supplement last isObject =>
      exact ⟨isObject.isValue last, by simp [objectText]⟩
  | third last values => exact ⟨.array _ last values, by simp [arrayText]⟩

theorem not_accepts_of_outside {numeral : Numeral}
    (outside : numeral.LiesOutside (-0x80000000) 0x7FFFFFFF) :
    ¬drafting.Accepts .supplement numeral.chars := by
  rintro ⟨draft, next, input, rest, others, follows, opened, isRead⟩
  rw [drafting_readField, Draft.readField] at isRead
  rcases exists_of_fill isRead with ⟨supplement, isSupplement, -⟩
  exact Numeral.readInt32_ne outside follows opened isSupplement

theorem read_ne_of_third {items : List Item} {item : Item} {numeral : Numeral} {last : Blanks}
    (values : ∀ item ∈ items, IsValue item.value) (isThird : items[2]? = some item)
    (isNumeral : item.value = numeral.chars)
    (outside : numeral.LiesOutside (-0x80000000) 0x7FFFFFFF)
    (opened : skipBlanks input = arrayText items last ++ rest) :
    CidSystemInfo.read input ≠ .ok result := by
  intro isRead
  rw [arrayText_append] at opened
  simp only [CidSystemInfo.read, opened] at isRead
  rcases exists_of_bind isRead with ⟨⟨registry, afterRegistry⟩, isRegistry, isLater⟩
  rcases exists_of_bind isLater with ⟨⟨ordering, afterOrdering⟩, isOrdering, isLater⟩
  rcases exists_of_bind isLater with ⟨⟨supplement, afterSupplement⟩, isSupplement, -⟩
  rcases exists_of_readField (takesValue_readAs _ _) values rfl isRegistry with
    ⟨first, items, -, rfl, atOrdering, -⟩
  rw [List.forall_mem_cons] at values
  rcases exists_of_readField (takesValue_readAs _ _) values.2 atOrdering isOrdering with
    ⟨second, items, -, rfl, atSupplement, -⟩
  rcases values with ⟨-, values⟩
  rw [List.forall_mem_cons] at values
  rcases exists_of_readField takesValue_readInt32 values.2 atSupplement isSupplement with
    ⟨third, items, left, rfl, -, isInt32⟩
  cases isThird
  have isValue := values.2 item List.mem_cons_self
  have follows := (follows_elementsLeft items last rest).append_blanks item.after
  refine Numeral.readInt32_ne outside follows ?_ isInt32
  rw [isValue.skipBlanks_append, isNumeral]

theorem read_ne_of_isFlawed (isFlawed : IsFlawed text)
    (opened : skipBlanks input = text ++ rest) : CidSystemInfo.read input ≠ .ok result := by
  intro isRead
  cases isFlawed with
  | fields last isObject miscounts =>
      rcases gives_of_read isObject opened isRead with ⟨-, fields, gives, complete⟩
      exact gives.not_miscounts drafting.name_injective (fun field _ => complete field) miscounts
  | supplement last isObject inside named isNumeral outside =>
      rcases gives_of_read isObject opened isRead with ⟨-, fields, gives, -⟩
      have accepts := (gives.suits_of_mem inside drafting.name_injective named).2
      rw [isNumeral] at accepts
      exact not_accepts_of_outside outside accepts
  | third last values isThird isNumeral outside =>
      exact read_ne_of_third values isThird isNumeral outside opened isRead

end CidSystemInfo

/-! ## Flaws of records -/

namespace FontRecord

/-- The range of a field that is a number. -/
def Field.range? : Field → Option (Int × Int)
  | weightClass | familyClass | macStyle => some (-0x80000000, 0x7FFFFFFF)
  | codePageRange1 | codePageRange2 => some (0, 0xFFFFFFFF)
  | _ => none

/-- The ways in which the value of one field spoils a record. -/
inductive Spoils : Field → List Char → Prop where
  /-- A number is out of range. -/
  | number {field : Field} {lowest highest : Int} {numeral : Numeral}
      (isRange : field.range? = some (lowest, highest))
      (outside : numeral.LiesOutside lowest highest) : Spoils field numeral.chars
  /-- The character collection has a flaw of its own. -/
  | cidSystemInfo {value : List Char} (isFlawed : CidSystemInfo.IsFlawed value) :
      Spoils .cidSystemInfo value
  /-- The format is a string, but not the name of a format. -/
  | format {body : List Char} (isBody : IsBody body)
      (unknown : ∀ name ∈ ["PFB", "TTF", "OTF"], ¬Spells body name.toList) :
      Spoils .format (quoted body)
  /-- The PANOSE digits are an array, but not of ten elements. -/
  | panose {items : List Item} (last : Blanks) (values : ∀ item ∈ items, IsValue item.value)
      (notTen : items.length ≠ 10) : Spoils .panose (arrayText items last)

/-- What makes an object no record. -/
inductive Flawed (members : List Member) : Prop where
  /-- A field that has to be there is missing, or a field stands there twice. -/
  | fields (miscounts : Miscounts drafting.name Field.IsRequired members)
  /-- A field has a value that spoils the record. -/
  | spoiled {field : Field} {member : Member} (inside : member ∈ members)
      (named : Spells member.key (drafting.name field)) (spoils : Spoils field member.value)

theorem not_accepts_of_outside {field : Field} {lowest highest : Int} {numeral : Numeral}
    (isRange : field.range? = some (lowest, highest))
    (outside : numeral.LiesOutside lowest highest) : ¬drafting.Accepts field numeral.chars := by
  rintro ⟨draft, next, input, rest, others, follows, opened, isRead⟩
  cases field with
  | weightClass | familyClass | macStyle =>
      cases isRange
      rw [drafting_readField, Draft.readField] at isRead
      rcases exists_of_fill isRead with ⟨value, isInt32, -⟩
      exact Numeral.readInt32_ne outside follows opened isInt32
  | codePageRange1 | codePageRange2 =>
      cases isRange
      rw [drafting_readField, Draft.readField] at isRead
      rcases exists_of_fill isRead with ⟨value, isUInt32, -⟩
      exact Numeral.readUInt32_ne outside follows opened isUInt32
  | _ => cases isRange

theorem not_accepts_of_spoils {field : Field} {value : List Char} (spoils : Spoils field value) :
    ¬drafting.Accepts field value := by
  cases spoils with
  | number isRange outside => exact not_accepts_of_outside isRange outside
  | cidSystemInfo isFlawed =>
      rintro ⟨draft, next, input, rest, others, follows, opened, isRead⟩
      rw [drafting_readField, Draft.readField] at isRead
      rcases exists_of_fill isRead with ⟨info?, isOptional, -⟩
      rcases isFlawed.isValue with ⟨isValue, notNull⟩
      rcases exists_of_readOptional isValue notNull opened isOptional with ⟨info, isInfo⟩
      exact CidSystemInfo.read_ne_of_isFlawed isFlawed (isValue.skipBlanks_append _) isInfo
  | format isBody unknown =>
      rintro ⟨draft, next, input, rest, others, follows, opened, isRead⟩
      rw [drafting_readField, Draft.readField] at isRead
      rcases exists_of_fill isRead with ⟨format, isFormat, -⟩
      have spells := FontFormat.spells_of_read isBody opened isFormat
      exact unknown format.shortName (by cases format <;> decide) spells
  | @panose items last values notTen =>
      rintro ⟨draft, next, input, rest, others, follows, opened, isRead⟩
      rw [drafting_readField, Draft.readField] at isRead
      rcases exists_of_fill isRead with ⟨panose?, isOptional, -⟩
      have isValue : IsValue (arrayText items last) := .array items last values
      have notNull : (arrayText items last).head? ≠ some 'n' := by simp [arrayText]
      rcases exists_of_readOptional isValue notNull opened isOptional with ⟨panose, isPanose⟩
      exact notTen (Panose.length_of_read values (isValue.skipBlanks_append _) isPanose).1

/-- The value is an object with a flaw. -/
def IsFlawed (value : List Char) : Prop :=
  ∃ members last, value = objectText members last ∧ IsObject members ∧ Flawed members

variable {value input rest : List Char}

theorem IsFlawed.isValue (isFlawed : IsFlawed value) : IsValue value := by
  rcases isFlawed with ⟨members, last, rfl, isObject, -⟩
  exact isObject.isValue last

/-- A flawed object is not read as a record, whatever stands around it. -/
theorem read_ne_of_isFlawed {result : FontRecord × List Char} (isFlawed : IsFlawed value)
    (opened : skipBlanks input = value ++ rest) : FontRecord.read input ≠ .ok result := by
  intro isRead
  rcases isFlawed with ⟨members, last, rfl, isObject, flawed⟩
  rcases gives_of_read isObject opened isRead with ⟨-, fields, gives, complete⟩
  cases flawed with
  | fields miscounts =>
      exact gives.not_miscounts drafting.name_injective complete miscounts
  | spoiled inside named spoils =>
      exact not_accepts_of_spoils spoils
        (gives.suits_of_mem inside drafting.name_injective named).2

/-- One flawed object spoils an array, whatever its other elements are. -/
theorem readArray_ne_of_isFlawed {items : List Item} {item : Item} {last : Blanks}
    {result : List FontRecord × List Char} (values : ∀ item ∈ items, IsValue item.value)
    (inside : item ∈ items) (isFlawed : IsFlawed item.value)
    (opened : skipBlanks input = arrayText items last ++ rest) : readArray input ≠ .ok result := by
  intro isRead
  rw [arrayText_append] at opened
  simp only [readArray, opened] at isRead
  rcases exists_of_bind isRead with ⟨⟨found, afterElements⟩, isElements, -⟩
  have eachRead := (exists_of_readElements takesValue_read values rfl isElements).2
  rcases eachRead item inside with ⟨others, record, left, -, isRecord⟩
  exact read_ne_of_isFlawed isFlawed (isFlawed.isValue.skipBlanks_append others) isRecord

end FontRecord

/-! ## Texts -/

namespace Export

open FontRecord (IsFlawed)

/-- A text with blanks around it. -/
def padded (before : Blanks) (text : List Char) (after : Blanks) : List Char :=
  before.chars ++ (text ++ after.chars)

/-- What is read of an object by itself and of objects in an array, with any blanks around them. -/
structure ReadsTolerantly (before after : Blanks) : Prop where
  read_object : ∀ (text : List Char) (record : FontRecord), record.EncodedBy text →
    '\n' ∉ padded before text after → read (padded before text after) = .ok [record]
  read_flawed : ∀ text : List Char, IsFlawed text → '\n' ∉ padded before text after →
    ∃ fault, read (padded before text after) = .error fault
  read_array : ∀ (items : List Item) (last : Blanks) (records : List FontRecord),
    List.Forall₂ (fun item record => record.EncodedBy item.value) items records →
      read (padded before (Json.arrayText items last) after) = .ok records
  read_array_flawed : ∀ (items : List Item) (last : Blanks), (∀ item ∈ items, IsValue item.value) →
    (∃ item ∈ items, IsFlawed item.value) →
      ∃ fault, read (padded before (Json.arrayText items last) after) = .error fault

variable {before after : Blanks} {members : List Member} {items : List Item} {last : Blanks}

theorem isBlank_blanks (blanks : Blanks) : Text.isBlank blanks.chars = true := by
  rw [Text.isBlank, List.all_eq_true]
  intro char inside
  have blank := blanks.blank char inside
  simp only [Json.isBlank, Bool.or_eq_true, decide_eq_true_eq] at blank
  rcases blank with ((rfl | rfl) | rfl) | rfl
  all_goals decide

theorem follows_blanks (blanks : Blanks) : Follows blanks.chars := by
  have follows := follows_nil.append_blanks blanks
  rw [List.append_nil] at follows
  exact follows

theorem skipBlanks_blanks (blanks : Blanks) : skipBlanks blanks.chars = [] := by
  rw [← List.append_nil blanks.chars, skipBlanks_append]
  rfl

/-- A text that is not taken by a reader fails as a whole. -/
theorem exists_fault_of_ne {α : Type} {reader : Reader α} {text : List Char}
    (notRead : ∀ result, reader text ≠ .ok result) :
    ∃ fault, readWhole reader text = .error fault := by
  cases isWhole : readWhole reader text with
  | error fault => exact ⟨fault, rfl⟩
  | ok value =>
      rcases exists_of_bind isWhole with ⟨result, isRead, -⟩
      exact absurd isRead (notRead result)

theorem read_padded_object (single : '\n' ∉ padded before (objectText members last) after) :
    read (padded before (objectText members last) after) =
      (readWhole FontRecord.read (objectText members last ++ after.chars)).map ([·]) := by
  rw [padded, List.mem_append, not_or] at single
  have isLine : readLines (Text.lines (objectText members last ++ after.chars)) =
      readLines [objectText members last ++ after.chars] := readLines_lines_last single.2
  have notBlank : Text.isBlank (objectText members last ++ after.chars) = false := rfl
  rw [padded, read_append_of_isBlank (isBlank_blanks before), read_of_head?_eq rfl, isLine]
  simp only [readLines, notBlank, Bool.false_eq_true, if_false]
  cases readWhole FontRecord.read (objectText members last ++ after.chars) <;> rfl

theorem read_padded_array :
    read (padded before (Json.arrayText items last) after) =
      readWhole FontRecord.readArray (Json.arrayText items last ++ after.chars) := by
  rw [padded, read_append_of_isBlank (isBlank_blanks before)]
  rfl

theorem readsTolerantly (before after : Blanks) : ReadsTolerantly before after where
  read_object := by
    intro text record encoded single
    rcases FontRecord.readsAs_of_encodedBy encoded with ⟨isValue, readsAs⟩
    have isRead := readsAs (isValue.skipBlanks_append _) (follows_blanks after)
    rcases encoded with ⟨members, last, rfl, -, -⟩
    rw [read_padded_object single, readWhole_of_read isRead (skipBlanks_blanks after)]
    rfl
  read_flawed := by
    intro text isFlawed single
    have opened := isFlawed.isValue.skipBlanks_append after.chars
    rcases exists_fault_of_ne fun _ => FontRecord.read_ne_of_isFlawed isFlawed opened with
      ⟨fault, isFault⟩
    rcases isFlawed with ⟨members, last, rfl, -, -⟩
    refine ⟨fault, ?_⟩
    rw [read_padded_object single, isFault]
    rfl
  read_array := by
    intro items last records encoded
    have opened : skipBlanks (Json.arrayText items last ++ after.chars) =
        Json.arrayText items last ++ after.chars := skipBlanks_of_not_isBlank rfl _
    rw [read_padded_array]
    exact readWhole_of_read (FontRecord.readArray_of_encodedBy encoded opened)
      (skipBlanks_blanks after)
  read_array_flawed := by
    rintro items last values ⟨item, inside, isFlawed⟩
    have opened : skipBlanks (Json.arrayText items last ++ after.chars) =
        Json.arrayText items last ++ after.chars := skipBlanks_of_not_isBlank rfl _
    rw [read_padded_array]
    exact exists_fault_of_ne fun _ =>
      FontRecord.readArray_ne_of_isFlawed values inside isFlawed opened

/-! ## An object out of order -/

namespace Specimen

/-- A record without PANOSE digits. -/
def record : FontRecord :=
  { FontRecord.ofType1 (Path.ofString "a.pfb") "A" with
    cidSystemInfo := some ⟨"Adobe", "Japan1", 6⟩ }

/-- The fields that the record has, in the opposite order. -/
def fields : List FontRecord.Field :=
  FontRecord.Field.all.dropLast.reverse

/-- The fields after something that says nothing about a record. -/
def pairs : List (String × Document) :=
  ("kerning", Document.array [Document.null]) ::
    fields.map fun field => (field.name, record.fieldDocument field)

/-- The record as an object, with its fields in the opposite order. -/
def shuffled : Document :=
  Document.object pairs

/-- An object with a number that is one too large. -/
def outsized : Document :=
  Document.object [("mac_style", Document.integer 0x80000000)]

theorem isText_record : record.file.text?.isSome := by
  simp [record, FontRecord.ofType1, Path.text?, Path.ofString, Path.ofText,
    Text.Utf8.decode?_encode]

theorem legible_pairs : ∀ pair ∈ pairs, pair.2.Legible := by
  rw [pairs, List.forall_mem_cons, List.forall_mem_map]
  constructor
  · exact Document.legible_array (List.forall_mem_singleton.mpr Document.legible_null)
  · intro field _
    exact FontRecord.legible_fieldDocument isText_record field

theorem encodedBy_shuffled (style : Style) (depth : Nat) :
    record.EncodedBy (spelling (shuffled style depth)) := by
  have isFurther : ∀ field, "kerning".toList ≠ FontRecord.drafting.name field := by
    intro field
    cases field <;> decide
  refine ⟨pairs.map (Document.member style depth), _, Document.spelling_object pairs style depth,
    Document.isObject_map_member legible_pairs style depth, fields, ?_, ?_⟩
  · rw [pairs, List.map_cons, List.map_map]
    apply Gives.further (spells_flatMap_escapeChar "kerning".toList) isFurther
    apply Gives.map (by decide)
    · intro field
      exact spells_flatMap_escapeChar field.name.toList
    · intro field
      exact FontRecord.encodes_fieldDocument isText_record field style (depth + 1)
  · intro field
    cases field with
    | panose => exact Or.inr rfl
    | _ => exact Or.inl (by decide)

theorem isFlawed_outsized (style : Style) (depth : Nat) :
    FontRecord.IsFlawed (spelling (outsized style depth)) := by
  have isInteger : (Numeral.ofInteger 0x80000000).IsInteger 0x80000000 := ⟨rfl, rfl, rfl⟩
  have outside : (Numeral.ofInteger 0x80000000).LiesOutside (-0x80000000) 0x7FFFFFFF := by
    right
    rw [Numeral.value_of_isInteger isInteger]
    norm_num
  have spoils : FontRecord.Spoils .macStyle (Decimal.integer 0x80000000) := by
    rw [← Numeral.chars_ofInteger]
    exact .number rfl outside
  have named : Spells ("mac_style".toList.flatMap escapeChar)
      (FontRecord.drafting.name .macStyle) := spells_flatMap_escapeChar "mac_style".toList
  refine ⟨_, _, Document.spelling_object _ style depth, ?_,
    .spoiled List.mem_cons_self named ?_⟩
  · apply Document.isObject_map_member
    simp [Document.legible_integer]
  · change FontRecord.Spoils .macStyle (spelling (Document.integer _ style (depth + 1)))
    rw [Document.integer, Document.spelling_literal]
    exact spoils

/-- A tabulator as white space. -/
def tab : Blanks :=
  ⟨['\t'], by simp [Json.isBlank]⟩

end Specimen

open FontCatalog.Export.Specimen

theorem readsTolerantly_specimens :
    read (padded tab (spelling (shuffled .compact 0)) tab) = .ok [record] ∧
      ∃ fault, read (padded tab (spelling (Document.array [shuffled, outsized] .indented 0)) tab) =
        .error fault := by
  have isTolerant := readsTolerantly tab tab
  constructor
  · apply isTolerant.read_object _ _ (encodedBy_shuffled .compact 0)
    have single : '\n' ∉ spelling (shuffled .compact 0) :=
      (Document.legible_object legible_pairs).single 0
    simpa [padded, tab] using single
  · rcases Document.exists_spelling_array [shuffled, outsized] .indented 0 with ⟨last, isArray⟩
    have isFlawed := isFlawed_outsized .indented 1
    have isValue := (FontRecord.readsAs_of_encodedBy (encodedBy_shuffled .indented 1)).1
    rw [isArray]
    apply isTolerant.read_array_flawed
    · simp [Document.item, isValue, isFlawed.isValue]
    · exact ⟨_, List.mem_cons_of_mem _ List.mem_cons_self, isFlawed⟩

end Export

end FontCatalog
