import FontCatalog.Proofs.JsonMembers
import FontCatalog.Record.Reading

/-!
# The fields of records

Records and character collections are read into drafts field by field. Whatever JSON value stands
where one of them is asked for, a reader that accepts it takes exactly that value.
-/

namespace FontCatalog

open Json

variable {text rest input others : List Char}

/-! ## Values of fields -/

theorem takesValue_readAs {α : Type} (expected : Expected) (make : List Char → α) :
    TakesValue (readAs expected make) :=
  takesValue_fill (takesValue_readText expected) make

theorem readsAs_quoted {α : Type} {body chars : List Char} (spells : Spells body chars)
    (expected : Expected) (make : List Char → α) :
    ReadsAs (readAs expected make) (quoted body) (make chars) := by
  apply ReadsAs.fill
  intro input rest opened _
  rw [quoted_append] at opened
  simp only [readText, opened]
  exact spells.readString_eq rest

theorem readsAs_string {body : List Char} {value : String} (spells : Spells body value.toList) :
    ReadsAs (readAs .text String.ofList) (quoted body) value := by
  have made := readsAs_quoted spells .text String.ofList
  rw [String.ofList_toList] at made
  exact made

theorem readsAs_null {α : Type} (reader : Reader α) :
    ReadsAs (readOptional reader) "null".toList none := by
  intro input rest opened _
  have isNull : skipBlanks input = 'n' :: ("ull".toList ++ rest) := opened
  simp only [readOptional, isNull]
  rfl

theorem readsAs_some {α : Type} {reader : Reader α} {value : α} (isValue : IsValue text)
    (notNull : text.head? ≠ some 'n') (readsAs : ReadsAs reader text value) :
    ReadsAs (readOptional reader) text (some value) := by
  intro input rest opened follows
  have isRead := readsAs (isValue.skipBlanks_append rest) follows
  simp only [readOptional, opened]
  split
  · rename_i isNull
    rcases isValue.exists_eq_cons with ⟨first, inside, rfl, -, -⟩
    cases isNull
    exact absurd rfl notNull
  · rw [isRead]
    rfl

/-! ## Formats -/

theorem FontFormat.takesValue_read : TakesValue FontFormat.read := by
  intro text rest input others format isValue follows opened isRead
  simp only [FontFormat.read] at isRead
  split at isRead
  · cases isRead
  · rename_i inside starts
    rcases isValue.of_quote (opened.symm.trans starts) with ⟨body, -, isBody, rfl⟩
    rcases exists_of_bind isRead with ⟨⟨name, left⟩, isName, isNamed⟩
    rcases exists_of_bind isNamed with ⟨format, -, isOthers⟩
    cases isOthers
    exact (isBody.spells_of_readString isName).2
  · rename_i inside starts
    rcases isValue.of_brace (opened.symm.trans starts) with ⟨members, last, -, isObject, rfl⟩
    rcases exists_of_bind isRead with ⟨⟨name, afterName⟩, isKey, isNamed⟩
    rcases exists_of_bind isNamed with ⟨named, -, isColon⟩
    rcases exists_of_bind isColon with ⟨afterColon, isAfter, isNull⟩
    rcases exists_of_bind isNull with ⟨⟨_, afterNull⟩, isUnit, isEnd⟩
    rcases exists_of_bind isKey with ⟨⟨key?, left⟩, isFirst, isLeft⟩
    cases members with
    | nil =>
        rw [readKey?_nil rfl] at isFirst
        cases isFirst
        cases isLeft
    | cons member members =>
        rw [isObject_cons] at isObject
        rw [readKey?_cons rfl] at isFirst
        rcases exists_of_bind isFirst with ⟨⟨key, afterKey⟩, isString, isSome⟩
        rcases isObject.1.1.spells_of_readString isString with ⟨-, rfl⟩
        cases isSome
        cases isLeft
        dsimp only at isAfter isUnit isEnd
        rw [colonLeft, readColon_append] at isAfter
        cases isAfter
        have follows := (follows_membersLeft members last rest).append_blanks member.item.after
        have isAfterNull := takesValue_readNull isObject.1.2 follows
          (isObject.1.2.skipBlanks_item _) isUnit
        rw [isAfterNull, skipBlanks_append] at isEnd
        cases members with
        | nil =>
            rw [skipBlanks_membersLeft_nil] at isEnd
            cases isEnd
            rfl
        | cons other members =>
            rw [membersLeft_next, skipBlanks_of_not_isBlank rfl] at isEnd
            cases isEnd
  · cases isRead

/-- A string is read as a format only if it is the short name of one. -/
theorem FontFormat.spells_of_read {body : List Char} {format : FontFormat} (isBody : IsBody body)
    (opened : skipBlanks input = quoted body ++ rest)
    (isRead : FontFormat.read input = .ok (format, others)) :
    Spells body format.shortName.toList := by
  rw [quoted_append] at opened
  simp only [FontFormat.read, opened] at isRead
  rcases exists_of_bind isRead with ⟨⟨name, left⟩, isName, isNamed⟩
  rcases exists_of_bind isNamed with ⟨found, isFormat, isOthers⟩
  cases isOthers
  have spells := (isBody.spells_of_readString isName).1
  simp only [FontFormat.named] at isFormat
  split at isFormat
  · rename_i isShortName
    cases isFormat
    have same := List.find?_some isShortName
    simp only [beq_iff_eq] at same
    rw [same, String.toList_ofList]
    exact spells
  · cases isFormat

theorem FontFormat.readsAs_quoted {body : List Char} {format : FontFormat}
    (spells : Spells body format.shortName.toList) :
    ReadsAs FontFormat.read (quoted body) format := by
  intro input rest opened _
  rw [quoted_append] at opened
  have isNamed : FontFormat.named format.shortName.toList = .ok format := by
    cases format <;> rfl
  simp only [FontFormat.read, opened, spells.readString_eq, bind, Except.bind, isNamed]

/-! ## Fields in order -/

section FieldsInOrder

variable {α : Type} {reader : Reader α} {value : α} {expected : String} {place : Nat}
  {items : List Item} {last : Blanks} {isFirst : Bool}

theorem exists_of_readField (takesValue : TakesValue reader)
    (values : ∀ item ∈ items, IsValue item.value)
    (opened : skipBlanks input = skipBlanks (elementsLeft (place = 0) items last rest))
    (isRead : readField expected place reader input = .ok (value, others)) :
    ∃ item later left, items = item :: later ∧
      skipBlanks others = skipBlanks (elementsLeft false later last rest) ∧
      reader (item.value ++ (item.after.chars ++ elementsLeft false later last rest)) =
        .ok (value, left) := by
  rcases exists_of_bind isRead with ⟨⟨field, afterField⟩, isElement, isField⟩
  rcases cases_of_readElement? takesValue values opened isElement with
    ⟨-, rfl, -⟩ | ⟨item, later, read, left, isCons, rfl, isOpened, isItem⟩
  · cases isField
  · cases isField
    exact ⟨item, later, left, isCons, isOpened, isItem⟩

/-- The text stands inside an array, after whose end there is a rest. -/
def StandsIn (isFirst : Bool) (input rest : List Char) : Prop :=
  ∃ (items : List Item) (last : Blanks), (∀ item ∈ items, IsValue item.value) ∧
    skipBlanks input = skipBlanks (elementsLeft isFirst items last rest)

namespace StandsIn

theorem afterField (stands : StandsIn isFirst input rest) (takesValue : TakesValue reader)
    (atPlace : isFirst = decide (place = 0))
    (isRead : readField expected place reader input = .ok (value, others)) :
    StandsIn false others rest := by
  subst atPlace
  rcases stands with ⟨items, last, values, opened⟩
  rcases exists_of_readField takesValue values opened isRead with
    ⟨item, later, -, rfl, isOpened, -⟩
  exact ⟨later, last, fun other inside => values other (List.mem_cons_of_mem _ inside), isOpened⟩

theorem afterOptionalField {reader : Reader (Option α)} {value : Option α}
    (stands : StandsIn isFirst input rest) (takesValue : TakesValue reader)
    (atPlace : isFirst = decide (place = 0))
    (isRead : readOptionalField place reader input = .ok (value, others)) :
    StandsIn false others rest := by
  subst atPlace
  rcases stands with ⟨items, last, values, opened⟩
  rcases exists_of_bind isRead with ⟨⟨field, afterField⟩, isElement, isField⟩
  rcases cases_of_readElement? takesValue values opened isElement with
    ⟨-, -, rfl⟩ | ⟨item, later, read, -, rfl, -, isOpened, -⟩
  · cases isField
    exact ⟨[], .none, by simp, rfl⟩
  · cases isField
    exact ⟨later, last, fun other inside => values other (List.mem_cons_of_mem _ inside), isOpened⟩

theorem afterEnd (stands : StandsIn isFirst input rest) (isRead : endArray input = .ok others) :
    others = rest := by
  rcases stands with ⟨items, last, values, opened⟩
  exact (nil_of_endArray values opened isRead).2

end StandsIn

end FieldsInOrder

/-! ## PANOSE digits -/

namespace Panose

variable {items : List Item} {last : Blanks} {panose : Panose}

/-- Only an array of ten elements is read as PANOSE digits. -/
theorem length_of_read (values : ∀ item ∈ items, IsValue item.value)
    (opened : skipBlanks input = arrayText items last ++ rest)
    (isRead : Panose.read input = .ok (panose, others)) : items.length = 10 ∧ others = rest := by
  rw [arrayText_append] at opened
  simp only [Panose.read, opened] at isRead
  rcases exists_of_bind isRead with ⟨⟨digits, afterDigits⟩, isDigits, isOthers⟩
  rcases exists_of_bind isOthers with ⟨afterEnd, isEnd, isPanose⟩
  rcases exists_of_readExactly takesValue_readByte values rfl isDigits with
    ⟨before, later, rfl, isTen, isOpened⟩
  have laterValues : ∀ item ∈ later, IsValue item.value := fun item inside =>
    values item (List.mem_append_right _ inside)
  rcases nil_of_endArray laterValues isOpened isEnd with ⟨rfl, rfl⟩
  dsimp only at isPanose
  split at isPanose
  · cases isPanose
    exact ⟨by simpa using isTen, rfl⟩
  · cases isPanose

theorem takesValue_read : TakesValue Panose.read := by
  intro text rest input others panose isValue _ opened isRead
  have isArray : ∃ inside, skipBlanks input = '[' :: inside := by
    simp only [Panose.read] at isRead
    split at isRead
    · exact ⟨_, by assumption⟩
    · cases isRead
  rcases isArray with ⟨inside, starts⟩
  rcases isValue.of_bracket (opened.symm.trans starts) with ⟨items, last, rfl, values, -⟩
  exact (length_of_read values opened isRead).2

/-- The value is an array of the ten digits. -/
def EncodedBy (panose : Panose) (value : List Char) : Prop :=
  ∃ items last, value = arrayText items last ∧
    items.map Item.value = panose.toBytes.map fun digit => Decimal.integer digit.toNat

theorem readsAs_of_encodedBy {panose : Panose} {value : List Char}
    (encoded : panose.EncodedBy value) :
    IsValue value ∧ value.head? ≠ some 'n' ∧ ReadsAs Panose.read value panose := by
  rcases encoded with ⟨items, last, rfl, isDigits⟩
  have each : List.Forall₂ (fun item digit => IsValue item.value ∧
      ReadsAs readByte item.value digit) items panose.toBytes := by
    rw [← List.forall₂_eq_eq_eq, List.forall₂_map_left_iff, List.forall₂_map_right_iff] at isDigits
    apply isDigits.imp
    intro item digit isDigit
    rw [isDigit]
    exact ⟨isValue_integer _, readsAs_byte digit⟩
  have areValues : ∀ item ∈ items, IsValue item.value := by
    intro item inside
    have isDigit := List.mem_map_of_mem (f := Item.value) inside
    rw [isDigits] at isDigit
    rcases List.mem_map.mp isDigit with ⟨digit, -, isInteger⟩
    rw [← isInteger]
    exact isValue_integer _
  refine ⟨.array items last areValues, by simp [arrayText], ?_⟩
  intro input rest opened _
  rw [arrayText_append] at opened
  have isFirst : skipBlanks (elementsLeft true items last rest) =
      skipBlanks (elementsLeft ((0 : Nat) = 0) items last rest) := rfl
  rcases readExactly_of_readsAs Expected.tenBytes.phrase each isFirst with ⟨left, isRead, isEnd⟩
  have isTen : panose.toBytes.length = 10 := rfl
  rw [isTen] at isRead
  simp only [Panose.read, opened, bind, Except.bind, isRead, endArray, isEnd, ofBytes?_toBytes]

end Panose

/-! ## Character collections -/

namespace CidSystemInfo

/-- The fields of a character collection. -/
inductive Field where
  | registry
  | ordering
  | supplement
deriving DecidableEq

/-- The key of a field in an object. -/
def Field.name : Field → String
  | registry => "registry"
  | ordering => "ordering"
  | supplement => "supplement"

namespace Draft

/-- The field has not been read. -/
def Lacks (draft : Draft) : Field → Prop
  | .registry => draft.registry = none
  | .ordering => draft.ordering = none
  | .supplement => draft.supplement = none

/-- Reads one field. -/
def readField (field : Field) (draft : Draft) : Reader Draft :=
  match field with
  | .registry =>
      fill (readAs .text String.ofList) fun value => { draft with registry := some value }
  | .ordering =>
      fill (readAs .text String.ofList) fun value => { draft with ordering := some value }
  | .supplement => fill readInt32 fun value => { draft with supplement := some value }

end Draft

theorem Field.name_injective : Function.Injective fun field : Field => field.name.toList := by
  intro left right same
  have sameName : left.name = right.name := String.toList_inj.mp same
  cases left <;> cases right <;> first | rfl | exact absurd sameName (by decide)

/-- Drafts of character collections, field by field. -/
def drafting : Drafting Field Draft where
  name := fun field => field.name.toList
  lacks := Draft.Lacks
  readMember := Draft.readMember
  readField := Draft.readField
  name_injective := Field.name_injective
  readMember_field := by
    intro field draft input opened lacking isColon
    cases field
    all_goals
      simp only [Draft.Lacks] at lacking
      simp [Draft.readMember, Field.name, readOnce, lacking, isColon, bind, Except.bind,
        Draft.readField, fill]
  readMember_twice := by
    intro field draft input result notLacking
    cases field
    all_goals
      rw [Draft.Lacks, ← ne_eq, ← Option.isSome_iff_ne_none] at notLacking
      simp [Draft.readMember, Field.name, readOnce, notLacking, bind, Except.bind]
  readMember_further := by
    intro draft key input isFurther
    have notName : ∀ field : Field, String.ofList key ≠ field.name := by
      intro field same
      apply isFurther field
      rw [← same, String.toList_ofList]
    simp only [Draft.readMember]
    split
    · rename_i isName
      exact absurd isName (notName .registry)
    · rename_i isName
      exact absurd isName (notName .ordering)
    · rename_i isName
      exact absurd isName (notName .supplement)
    · rfl
  takesValue := by
    intro field draft
    cases field
    all_goals
      rw [Draft.readField]
      apply takesValue_fill
    · exact takesValue_readAs _ _
    · exact takesValue_readAs _ _
    · exact takesValue_readInt32
  lacks_iff := by
    intro field draft next input rest isRead other
    cases field
    all_goals
      rw [Draft.readField] at isRead
      rcases exists_of_fill isRead with ⟨value, -, rfl⟩
      cases other <;> simp [Draft.Lacks]

theorem drafting_readField (field : Field) (draft : Draft) :
    drafting.readField field draft = Draft.readField field draft := rfl

/-- Only a draft that has every field is a character collection. -/
theorem Draft.not_lacks_of_finish {draft : Draft} {info : CidSystemInfo}
    (isFinished : draft.finish = .ok info) (field : Field) : ¬draft.Lacks field := by
  rcases draft with ⟨registry, ordering, supplement⟩
  cases registry with
  | none => cases isFinished
  | some registry =>
      cases ordering with
      | none => cases isFinished
      | some ordering =>
          cases supplement with
          | none => cases isFinished
          | some supplement => cases field <;> simp [Lacks]

/-- An object that is read as a character collection gives every field, once and with a value that
is accepted for it. -/
theorem gives_of_read {members : List Member} {last : Blanks} {info : CidSystemInfo}
    (isObject : IsObject members) (opened : skipBlanks input = objectText members last ++ rest)
    (isRead : CidSystemInfo.read input = .ok (info, others)) :
    others = rest ∧ ∃ fields, Gives drafting.name drafting.Accepts members fields ∧
      ∀ field, field ∈ fields := by
  rw [objectText_append] at opened
  simp only [CidSystemInfo.read, opened] at isRead
  rcases exists_of_bind isRead with ⟨⟨draft, afterMembers⟩, isDraft, isLater⟩
  rcases exists_of_bind isLater with ⟨found, isFinished, isLater⟩
  rcases exists_of_bind isLater with ⟨afterObject, isEnd, isInfo⟩
  cases isInfo
  rcases drafting.gives_of_readMembers isObject rfl isDraft with
    ⟨isAfter, fields, gives, -, lacks_iff⟩
  dsimp only at isEnd
  rw [isAfter] at isEnd
  cases isEnd
  refine ⟨rfl, fields, gives, ?_⟩
  intro field
  have notLacking := Draft.not_lacks_of_finish isFinished field
  have lacksAtFirst : drafting.lacks ⟨none, none, none⟩ field := by
    cases field <;> rfl
  by_contra notGiven
  exact notLacking ((lacks_iff field).mpr ⟨lacksAtFirst, notGiven⟩)

theorem takesValue_read : TakesValue CidSystemInfo.read := by
  intro text rest input others info isValue _ opened isRead
  cases starts : skipBlanks input with
  | nil => simp [CidSystemInfo.read, starts] at isRead
  | cons first inside =>
      by_cases isArray : first = '['
      · subst isArray
        rcases isValue.of_bracket (opened.symm.trans starts) with ⟨items, last, -, values, rfl⟩
        simp only [CidSystemInfo.read, starts] at isRead
        rcases exists_of_bind isRead with ⟨⟨registry, afterRegistry⟩, isRegistry, isLater⟩
        rcases exists_of_bind isLater with ⟨⟨ordering, afterOrdering⟩, isOrdering, isLater⟩
        rcases exists_of_bind isLater with ⟨⟨supplement, afterSupplement⟩, isSupplement, isLater⟩
        rcases exists_of_bind isLater with ⟨afterArray, isEnd, isInfo⟩
        cases isInfo
        have atRegistry : StandsIn true (elementsLeft true items last rest) rest :=
          ⟨items, last, values, rfl⟩
        have atOrdering := atRegistry.afterField (takesValue_readAs _ _) rfl isRegistry
        have atSupplement := atOrdering.afterField (takesValue_readAs _ _) rfl isOrdering
        have atEnd := atSupplement.afterField takesValue_readInt32 rfl isSupplement
        exact atEnd.afterEnd isEnd
      · by_cases isObject : first = '\x7b'
        · subst isObject
          rcases isValue.of_brace (opened.symm.trans starts) with
            ⟨members, last, rfl, isObject, -⟩
          exact (gives_of_read isObject opened isRead).1
        · simp [CidSystemInfo.read, starts, isArray, isObject] at isRead

/-- The value of a field as it is written, except that the characters of a text may be escaped. -/
def Encodes (info : CidSystemInfo) : Field → List Char → Prop
  | .registry, value => ∃ body, value = quoted body ∧ Spells body info.registry.toList
  | .ordering, value => ∃ body, value = quoted body ∧ Spells body info.ordering.toList
  | .supplement, value => value = Decimal.integer info.supplement.toInt

/-- The value is an object that gives every field. -/
def EncodedBy (info : CidSystemInfo) (value : List Char) : Prop :=
  ∃ members last fields, value = objectText members last ∧ IsObject members ∧
    Gives drafting.name info.Encodes members fields ∧ ∀ field, field ∈ fields

/-- The draft holds the field of a character collection. -/
def Holds (info : CidSystemInfo) (draft : Draft) : Field → Prop
  | .registry => draft.registry = some info.registry
  | .ordering => draft.ordering = some info.ordering
  | .supplement => draft.supplement = some info.supplement

variable {info : CidSystemInfo}

/-- The draft with one field of a character collection put in. -/
def put (info : CidSystemInfo) (field : Field) (draft : Draft) : Draft :=
  match field with
  | .registry => { draft with registry := some info.registry }
  | .ordering => { draft with ordering := some info.ordering }
  | .supplement => { draft with supplement := some info.supplement }

theorem holds_put (info : CidSystemInfo) (field : Field) (draft : Draft) :
    info.Holds (info.put field draft) field ∧
      ∀ other, info.Holds draft other → info.Holds (info.put field draft) other := by
  constructor
  · cases field <;> rfl
  · intro other held
    cases field <;> cases other <;> first | rfl | exact held

theorem readsAs_put {field : Field} {value : List Char} (encodes : info.Encodes field value)
    (draft : Draft) :
    ReadsAs (drafting.readField field draft) value (info.put field draft) := by
  cases field with
  | registry =>
      rcases encodes with ⟨body, rfl, spells⟩
      exact (readsAs_string spells).fill fun value => { draft with registry := some value }
  | ordering =>
      rcases encodes with ⟨body, rfl, spells⟩
      exact (readsAs_string spells).fill fun value => { draft with ordering := some value }
  | supplement =>
      rw [Encodes] at encodes
      subst encodes
      exact (readsAs_int32 _).fill fun value => { draft with supplement := some value }

theorem readsAs_of_encodedBy {value : List Char} (encoded : info.EncodedBy value) :
    IsValue value ∧ value.head? ≠ some 'n' ∧ ReadsAs CidSystemInfo.read value info := by
  rcases encoded with ⟨members, last, fields, rfl, isObject, gives, complete⟩
  refine ⟨isObject.isValue last, by simp [objectText], ?_⟩
  intro input rest opened _
  rw [objectText_append] at opened
  have enough := length_le_membersLeft true members last rest
  have lacking : ∀ field ∈ fields, drafting.lacks ⟨none, none, none⟩ field := by
    intro field _
    cases field <;> rfl
  have isFirst : skipBlanks (membersLeft true members last rest) =
      skipBlanks (membersLeft true members last rest) := rfl
  rcases drafting.readMembers_of_gives
    (fun encodes _ => ⟨_, readsAs_put encodes _, info.holds_put _ _⟩) gives isObject lacking
    (Nat.lt_succ_of_le enough) isFirst with ⟨draft, isDraft, holds, -⟩
  have isFinished : draft.finish = .ok info := by
    have registry : draft.registry = some info.registry := holds .registry (Or.inl (complete _))
    have ordering : draft.ordering = some info.ordering := holds .ordering (Or.inl (complete _))
    have supplement : draft.supplement = some info.supplement :=
      holds .supplement (Or.inl (complete _))
    simp only [Draft.finish, registry, ordering, supplement]
  have isRead : readMembers Draft.readMember ((membersLeft true members last rest).length + 1) true
      ⟨none, none, none⟩ (membersLeft true members last rest) = .ok (draft, '\x7d' :: rest) :=
    isDraft
  simp only [CidSystemInfo.read, opened, bind, Except.bind, isRead, isFinished]
  rfl

end CidSystemInfo

/-! ## Records -/

namespace FontRecord

/-- The fields of a record. -/
inductive Field where
  | file
  | format
  | postscriptName
  | cidSystemInfo
  | weightClass
  | familyClass
  | codePageRange1
  | codePageRange2
  | macStyle
  | panose
deriving DecidableEq

namespace Field

/-- The key of a field in an object. -/
def name : Field → String
  | file => "file"
  | format => "format"
  | postscriptName => "postscript_name"
  | cidSystemInfo => "cid_system_info"
  | weightClass => "weight_class"
  | familyClass => "family_class"
  | codePageRange1 => "code_page_range_1"
  | codePageRange2 => "code_page_range_2"
  | macStyle => "mac_style"
  | panose => "panose"

theorem name_injective : Function.Injective fun field : Field => field.name.toList := by
  intro left right same
  have sameName : left.name = right.name := String.toList_inj.mp same
  cases left <;> cases right <;> first | rfl | exact absurd sameName (by decide)

end Field

namespace Draft

/-- The field has not been read. -/
def Lacks (draft : Draft) : Field → Prop
  | .file => draft.file = none
  | .format => draft.format = none
  | .postscriptName => draft.postscriptName = none
  | .cidSystemInfo => draft.cidSystemInfo = none
  | .weightClass => draft.weightClass = none
  | .familyClass => draft.familyClass = none
  | .codePageRange1 => draft.codePageRange1 = none
  | .codePageRange2 => draft.codePageRange2 = none
  | .macStyle => draft.macStyle = none
  | .panose => draft.panose = none

/-- Reads one field. -/
def readField (field : Field) (draft : Draft) : Reader Draft :=
  match field with
  | .file => fill (readAs .pathText Path.ofText) fun value => { draft with file := some value }
  | .format => fill FontFormat.read fun value => { draft with format := some value }
  | .postscriptName =>
      fill (readAs .text String.ofList) fun value => { draft with postscriptName := some value }
  | .cidSystemInfo =>
      fill (readOptional CidSystemInfo.read) fun value => { draft with cidSystemInfo := some value }
  | .weightClass => fill readInt32 fun value => { draft with weightClass := some value }
  | .familyClass => fill readInt32 fun value => { draft with familyClass := some value }
  | .codePageRange1 => fill readUInt32 fun value => { draft with codePageRange1 := some value }
  | .codePageRange2 => fill readUInt32 fun value => { draft with codePageRange2 := some value }
  | .macStyle => fill readInt32 fun value => { draft with macStyle := some value }
  | .panose => fill (readOptional Panose.read) fun value => { draft with panose := some value }

end Draft

/-- Drafts of records, field by field. -/
def drafting : Drafting Field Draft where
  name := fun field => field.name.toList
  lacks := Draft.Lacks
  readMember := Draft.readMember
  readField := Draft.readField
  name_injective := Field.name_injective
  readMember_field := by
    intro field draft input opened lacking isColon
    cases field
    all_goals
      simp only [Draft.Lacks] at lacking
      simp [Draft.readMember, Field.name, readOnce, lacking, isColon, bind, Except.bind,
        Draft.readField, fill]
  readMember_twice := by
    intro field draft input result notLacking
    cases field
    all_goals
      rw [Draft.Lacks, ← ne_eq, ← Option.isSome_iff_ne_none] at notLacking
      simp [Draft.readMember, Field.name, readOnce, notLacking, bind, Except.bind]
  readMember_further := by
    intro draft key input isFurther
    have notName : ∀ field : Field, String.ofList key ≠ field.name := by
      intro field same
      apply isFurther field
      rw [← same, String.toList_ofList]
    simp only [Draft.readMember]
    split
    · rename_i isName
      exact absurd isName (notName .file)
    · rename_i isName
      exact absurd isName (notName .format)
    · rename_i isName
      exact absurd isName (notName .postscriptName)
    · rename_i isName
      exact absurd isName (notName .cidSystemInfo)
    · rename_i isName
      exact absurd isName (notName .weightClass)
    · rename_i isName
      exact absurd isName (notName .familyClass)
    · rename_i isName
      exact absurd isName (notName .codePageRange1)
    · rename_i isName
      exact absurd isName (notName .codePageRange2)
    · rename_i isName
      exact absurd isName (notName .macStyle)
    · rename_i isName
      exact absurd isName (notName .panose)
    · rfl
  takesValue := by
    intro field draft
    cases field
    all_goals
      rw [Draft.readField]
      apply takesValue_fill
    · exact takesValue_readAs _ _
    · exact FontFormat.takesValue_read
    · exact takesValue_readAs _ _
    · exact takesValue_readOptional CidSystemInfo.takesValue_read
    · exact takesValue_readInt32
    · exact takesValue_readInt32
    · exact takesValue_readUInt32
    · exact takesValue_readUInt32
    · exact takesValue_readInt32
    · exact takesValue_readOptional Panose.takesValue_read
  lacks_iff := by
    intro field draft next input rest isRead other
    cases field
    all_goals
      rw [Draft.readField] at isRead
      rcases exists_of_fill isRead with ⟨value, -, rfl⟩
      cases other <;> simp [Draft.Lacks]

theorem drafting_readField (field : Field) (draft : Draft) :
    drafting.readField field draft = Draft.readField field draft := rfl

/-- The field has to be there. -/
def Field.IsRequired (field : Field) : Prop :=
  field ≠ .cidSystemInfo ∧ field ≠ .panose

theorem Draft.ne_none_of_require {α : Type} {name : String} {held : Option α} {value : α}
    (isThere : Draft.require name held = .ok value) : held ≠ none := by
  rintro rfl
  cases isThere

/-- Only a draft that has every field that has to be there is a record. -/
theorem Draft.not_lacks_of_finish {draft : Draft} {record : FontRecord}
    (isFinished : draft.finish = .ok record) {field : Field} (isRequired : field.IsRequired) :
    ¬draft.Lacks field := by
  rcases exists_of_bind isFinished with ⟨_, file, isLater⟩
  rcases exists_of_bind isLater with ⟨_, format, isLater⟩
  rcases exists_of_bind isLater with ⟨_, postscriptName, isLater⟩
  rcases exists_of_bind isLater with ⟨_, weightClass, isLater⟩
  rcases exists_of_bind isLater with ⟨_, familyClass, isLater⟩
  rcases exists_of_bind isLater with ⟨_, codePageRange1, isLater⟩
  rcases exists_of_bind isLater with ⟨_, codePageRange2, isLater⟩
  rcases exists_of_bind isLater with ⟨_, macStyle, -⟩
  cases field with
  | file => exact ne_none_of_require file
  | format => exact ne_none_of_require format
  | postscriptName => exact ne_none_of_require postscriptName
  | weightClass => exact ne_none_of_require weightClass
  | familyClass => exact ne_none_of_require familyClass
  | codePageRange1 => exact ne_none_of_require codePageRange1
  | codePageRange2 => exact ne_none_of_require codePageRange2
  | macStyle => exact ne_none_of_require macStyle
  | cidSystemInfo => exact absurd rfl isRequired.1
  | panose => exact absurd rfl isRequired.2

theorem standsIn_of_readFields {record : FontRecord} (stands : StandsIn true input rest)
    (isRead : readFields input = .ok (record, others)) : StandsIn false others rest := by
  rcases exists_of_bind isRead with ⟨⟨file, afterFile⟩, isFile, isLater⟩
  rcases exists_of_bind isLater with ⟨⟨format, afterFormat⟩, isFormat, isLater⟩
  rcases exists_of_bind isLater with ⟨⟨name, afterName⟩, isName, isLater⟩
  rcases exists_of_bind isLater with ⟨⟨info, afterInfo⟩, isInfo, isLater⟩
  rcases exists_of_bind isLater with ⟨⟨weight, afterWeight⟩, isWeight, isLater⟩
  rcases exists_of_bind isLater with ⟨⟨family, afterFamily⟩, isFamily, isLater⟩
  rcases exists_of_bind isLater with ⟨⟨range1, afterRange1⟩, isRange1, isLater⟩
  rcases exists_of_bind isLater with ⟨⟨range2, afterRange2⟩, isRange2, isLater⟩
  rcases exists_of_bind isLater with ⟨⟨style, afterStyle⟩, isStyle, isLater⟩
  rcases exists_of_bind isLater with ⟨⟨panose, afterPanose⟩, isPanose, isRecord⟩
  cases isRecord
  have atFormat := stands.afterField (takesValue_readAs _ _) rfl isFile
  have atName := atFormat.afterField FontFormat.takesValue_read rfl isFormat
  have atInfo := atName.afterField (takesValue_readAs _ _) rfl isName
  have atWeight := atInfo.afterOptionalField
    (takesValue_readOptional CidSystemInfo.takesValue_read) rfl isInfo
  have atFamily := atWeight.afterField takesValue_readInt32 rfl isWeight
  have atRange1 := atFamily.afterField takesValue_readInt32 rfl isFamily
  have atRange2 := atRange1.afterField takesValue_readUInt32 rfl isRange1
  have atStyle := atRange2.afterField takesValue_readUInt32 rfl isRange2
  have atPanose := atStyle.afterField takesValue_readInt32 rfl isStyle
  exact atPanose.afterOptionalField (takesValue_readOptional Panose.takesValue_read) rfl isPanose

/-- An object that is read as a record gives every field that has to be there, every field once at
most, and each with a value that is accepted for it. -/
theorem gives_of_read {members : List Member} {last : Blanks} {record : FontRecord}
    (isObject : IsObject members) (opened : skipBlanks input = objectText members last ++ rest)
    (isRead : FontRecord.read input = .ok (record, others)) :
    others = rest ∧ ∃ fields, Gives drafting.name drafting.Accepts members fields ∧
      ∀ field : Field, field.IsRequired → field ∈ fields := by
  rw [objectText_append] at opened
  simp only [FontRecord.read, opened] at isRead
  rcases exists_of_bind isRead with ⟨⟨draft, afterMembers⟩, isDraft, isLater⟩
  rcases exists_of_bind isLater with ⟨found, isFinished, isLater⟩
  rcases exists_of_bind isLater with ⟨afterObject, isEnd, isRecord⟩
  cases isRecord
  rcases drafting.gives_of_readMembers isObject rfl isDraft with
    ⟨isAfter, fields, gives, -, lacks_iff⟩
  dsimp only at isEnd
  rw [isAfter] at isEnd
  cases isEnd
  refine ⟨rfl, fields, gives, ?_⟩
  intro field isRequired
  have notLacking := Draft.not_lacks_of_finish isFinished isRequired
  have lacksAtFirst : drafting.lacks Draft.empty field := by
    cases field <;> rfl
  by_contra notGiven
  exact notLacking ((lacks_iff field).mpr ⟨lacksAtFirst, notGiven⟩)

theorem takesValue_read : TakesValue FontRecord.read := by
  intro text rest input others record isValue _ opened isRead
  cases starts : skipBlanks input with
  | nil => simp [FontRecord.read, starts] at isRead
  | cons first inside =>
      by_cases isArray : first = '['
      · subst isArray
        rcases isValue.of_bracket (opened.symm.trans starts) with ⟨items, last, -, values, rfl⟩
        simp only [FontRecord.read, starts] at isRead
        rcases exists_of_bind isRead with ⟨⟨found, afterFields⟩, isFields, isLater⟩
        rcases exists_of_bind isLater with ⟨afterArray, isEnd, isRecord⟩
        cases isRecord
        have atFields : StandsIn true (elementsLeft true items last rest) rest :=
          ⟨items, last, values, rfl⟩
        exact (standsIn_of_readFields atFields isFields).afterEnd isEnd
      · by_cases isObject : first = '\x7b'
        · subst isObject
          rcases isValue.of_brace (opened.symm.trans starts) with
            ⟨members, last, rfl, isObject, -⟩
          exact (gives_of_read isObject opened isRead).1
        · simp [FontRecord.read, starts, isArray, isObject] at isRead

/-- The value of a field that may be absent, and then is `null`. -/
def EncodesOptional {α : Type} (encodedBy : α → List Char → Prop) :
    Option α → List Char → Prop
  | some held, value => encodedBy held value
  | none, value => value = "null".toList

/-- The value of a field as it is written, except for blanks and except that the characters of a
text may be escaped and the fields of a character collection may stand in any order. -/
def Encodes (record : FontRecord) : Field → List Char → Prop
  | .file, value => ∃ body chars, value = quoted body ∧ Spells body chars ∧
      Path.ofText chars = record.file
  | .format, value => ∃ body, value = quoted body ∧ Spells body record.format.shortName.toList
  | .postscriptName, value => ∃ body, value = quoted body ∧
      Spells body record.postscriptName.toList
  | .cidSystemInfo, value => EncodesOptional CidSystemInfo.EncodedBy record.cidSystemInfo value
  | .weightClass, value => value = Decimal.integer record.weightClass.toInt
  | .familyClass, value => value = Decimal.integer record.familyClass.toInt
  | .codePageRange1, value => value = Decimal.integer record.codePageRange1.toNat
  | .codePageRange2, value => value = Decimal.integer record.codePageRange2.toNat
  | .macStyle, value => value = Decimal.integer record.macStyle.toInt
  | .panose, value => EncodesOptional Panose.EncodedBy record.panose value

/-- The field need not be given, because it is absent. -/
def LeavesOut (record : FontRecord) : Field → Prop
  | .cidSystemInfo => record.cidSystemInfo = none
  | .panose => record.panose = none
  | _ => False

/-- The members give the record: every field once in any order, where what is absent may be left
out, among members under any other names. -/
def GivenBy (record : FontRecord) (members : List Member) : Prop :=
  ∃ fields, Gives drafting.name record.Encodes members fields ∧
    ∀ field, field ∈ fields ∨ record.LeavesOut field

/-- The value is an object that gives the record. -/
def EncodedBy (record : FontRecord) (value : List Char) : Prop :=
  ∃ members last, value = objectText members last ∧ IsObject members ∧ record.GivenBy members

/-- The draft holds the field of a record. -/
def Holds (record : FontRecord) (draft : Draft) : Field → Prop
  | .file => draft.file = some record.file
  | .format => draft.format = some record.format
  | .postscriptName => draft.postscriptName = some record.postscriptName
  | .cidSystemInfo => draft.cidSystemInfo = some record.cidSystemInfo
  | .weightClass => draft.weightClass = some record.weightClass
  | .familyClass => draft.familyClass = some record.familyClass
  | .codePageRange1 => draft.codePageRange1 = some record.codePageRange1
  | .codePageRange2 => draft.codePageRange2 = some record.codePageRange2
  | .macStyle => draft.macStyle = some record.macStyle
  | .panose => draft.panose = some record.panose

/-- The draft with one field of a record put in. -/
def put (record : FontRecord) (field : Field) (draft : Draft) : Draft :=
  match field with
  | .file => { draft with file := some record.file }
  | .format => { draft with format := some record.format }
  | .postscriptName => { draft with postscriptName := some record.postscriptName }
  | .cidSystemInfo => { draft with cidSystemInfo := some record.cidSystemInfo }
  | .weightClass => { draft with weightClass := some record.weightClass }
  | .familyClass => { draft with familyClass := some record.familyClass }
  | .codePageRange1 => { draft with codePageRange1 := some record.codePageRange1 }
  | .codePageRange2 => { draft with codePageRange2 := some record.codePageRange2 }
  | .macStyle => { draft with macStyle := some record.macStyle }
  | .panose => { draft with panose := some record.panose }

theorem holds_put (record : FontRecord) (field : Field) (draft : Draft) :
    record.Holds (record.put field draft) field ∧
      ∀ other, record.Holds draft other → record.Holds (record.put field draft) other := by
  constructor
  · cases field <;> rfl
  · intro other held
    cases field <;> cases other <;> first | rfl | exact held

variable {record : FontRecord}

theorem readsAs_optional {α : Type} {reader : Reader α} {encodedBy : α → List Char → Prop}
    (readsAs : ∀ {held value}, encodedBy held value →
      IsValue value ∧ value.head? ≠ some 'n' ∧ ReadsAs reader value held)
    {held : Option α} {value : List Char} (encodes : EncodesOptional encodedBy held value) :
    ReadsAs (readOptional reader) value held := by
  cases held with
  | none =>
      rw [EncodesOptional] at encodes
      subst encodes
      exact readsAs_null reader
  | some held =>
      rcases readsAs encodes with ⟨isValue, notNull, readsHeld⟩
      exact readsAs_some isValue notNull readsHeld

theorem readsAs_put {field : Field} {value : List Char} (encodes : record.Encodes field value)
    (draft : Draft) :
    ReadsAs (drafting.readField field draft) value (record.put field draft) := by
  cases field with
  | file =>
      rcases encodes with ⟨body, chars, rfl, spells, isFile⟩
      have isRead := readsAs_quoted spells .pathText Path.ofText
      rw [isFile] at isRead
      exact isRead.fill fun value => { draft with file := some value }
  | format =>
      rcases encodes with ⟨body, rfl, spells⟩
      exact (FontFormat.readsAs_quoted spells).fill fun value => { draft with format := some value }
  | postscriptName =>
      rcases encodes with ⟨body, rfl, spells⟩
      exact (readsAs_string spells).fill fun value => { draft with postscriptName := some value }
  | cidSystemInfo =>
      have isRead : ReadsAs (readOptional CidSystemInfo.read) value record.cidSystemInfo :=
        readsAs_optional CidSystemInfo.readsAs_of_encodedBy encodes
      exact isRead.fill fun value => { draft with cidSystemInfo := some value }
  | panose =>
      have isRead : ReadsAs (readOptional Panose.read) value record.panose :=
        readsAs_optional Panose.readsAs_of_encodedBy encodes
      exact isRead.fill fun value => { draft with panose := some value }
  | weightClass =>
      rw [Encodes] at encodes
      subst encodes
      exact (readsAs_int32 _).fill fun value => { draft with weightClass := some value }
  | familyClass =>
      rw [Encodes] at encodes
      subst encodes
      exact (readsAs_int32 _).fill fun value => { draft with familyClass := some value }
  | codePageRange1 =>
      rw [Encodes] at encodes
      subst encodes
      exact (readsAs_uint32 _).fill fun value => { draft with codePageRange1 := some value }
  | codePageRange2 =>
      rw [Encodes] at encodes
      subst encodes
      exact (readsAs_uint32 _).fill fun value => { draft with codePageRange2 := some value }
  | macStyle =>
      rw [Encodes] at encodes
      subst encodes
      exact (readsAs_int32 _).fill fun value => { draft with macStyle := some value }

/-- A draft that holds every field that has to be there, and lacks what the record leaves out, is
the record. -/
theorem finish_of_holds {draft : Draft}
    (holds : ∀ field, record.Holds draft field ∨ record.LeavesOut field ∧ draft.Lacks field) :
    draft.finish = .ok record := by
  have file : draft.file = some record.file := (holds .file).resolve_right (·.1)
  have format : draft.format = some record.format := (holds .format).resolve_right (·.1)
  have postscriptName : draft.postscriptName = some record.postscriptName :=
    (holds .postscriptName).resolve_right (·.1)
  have weightClass : draft.weightClass = some record.weightClass :=
    (holds .weightClass).resolve_right (·.1)
  have familyClass : draft.familyClass = some record.familyClass :=
    (holds .familyClass).resolve_right (·.1)
  have codePageRange1 : draft.codePageRange1 = some record.codePageRange1 :=
    (holds .codePageRange1).resolve_right (·.1)
  have codePageRange2 : draft.codePageRange2 = some record.codePageRange2 :=
    (holds .codePageRange2).resolve_right (·.1)
  have macStyle : draft.macStyle = some record.macStyle := (holds .macStyle).resolve_right (·.1)
  have cidSystemInfo : draft.cidSystemInfo.getD none = record.cidSystemInfo := by
    rcases holds .cidSystemInfo with isHeld | ⟨isAbsent, isLacking⟩
    · rw [Holds] at isHeld
      rw [isHeld]
      rfl
    · rw [LeavesOut] at isAbsent
      rw [Draft.Lacks] at isLacking
      rw [isAbsent, isLacking]
      rfl
  have panose : draft.panose.getD none = record.panose := by
    rcases holds .panose with isHeld | ⟨isAbsent, isLacking⟩
    · rw [Holds] at isHeld
      rw [isHeld]
      rfl
    · rw [LeavesOut] at isAbsent
      rw [Draft.Lacks] at isLacking
      rw [isAbsent, isLacking]
      rfl
  simp only [Draft.finish, file, format, postscriptName, weightClass, familyClass, codePageRange1,
    codePageRange2, macStyle, cidSystemInfo, panose, Draft.require, bind, Except.bind]

theorem readsAs_of_encodedBy {value : List Char} (encoded : record.EncodedBy value) :
    IsValue value ∧ ReadsAs FontRecord.read value record := by
  rcases encoded with ⟨members, last, rfl, isObject, fields, gives, complete⟩
  refine ⟨isObject.isValue last, ?_⟩
  intro input rest opened _
  rw [objectText_append] at opened
  have enough := length_le_membersLeft true members last rest
  have lacksAtFirst : ∀ field, drafting.lacks Draft.empty field := by
    intro field
    cases field <;> rfl
  have isFirst : skipBlanks (membersLeft true members last rest) =
      skipBlanks (membersLeft true members last rest) := rfl
  rcases drafting.readMembers_of_gives
    (fun encodes _ => ⟨_, readsAs_put encodes _, record.holds_put _ _⟩) gives isObject
    (fun field _ => lacksAtFirst field) (Nat.lt_succ_of_le enough) isFirst with
    ⟨draft, isDraft, holds, lacks_iff⟩
  have isFinished : draft.finish = .ok record := by
    apply finish_of_holds
    intro field
    by_cases isGiven : field ∈ fields
    · exact Or.inl (holds field (Or.inl isGiven))
    · exact Or.inr ⟨(complete field).resolve_left isGiven,
        (lacks_iff field).mpr ⟨lacksAtFirst field, isGiven⟩⟩
  have isRead : readMembers Draft.readMember ((membersLeft true members last rest).length + 1) true
      Draft.empty (membersLeft true members last rest) = .ok (draft, '\x7d' :: rest) :=
    isDraft
  simp only [FontRecord.read, opened, bind, Except.bind, isRead, isFinished]
  rfl

/-- An array of objects is read as their records. -/
theorem readArray_of_encodedBy {items : List Item} {records : List FontRecord} {last : Blanks}
    (encoded : List.Forall₂ (fun item record => record.EncodedBy item.value) items records)
    (opened : skipBlanks input = arrayText items last ++ rest) :
    readArray input = .ok (records, rest) := by
  have each : List.Forall₂ (fun item record => IsValue item.value ∧
      ReadsAs FontRecord.read item.value record) items records :=
    encoded.imp fun _ _ => readsAs_of_encodedBy
  have values : ∀ item ∈ items, IsValue item.value :=
    ((List.forall₂_and_left (p := fun item => IsValue item.value) items records).mp each).1
  have enough := Nat.lt_succ_of_le (length_le_elementsLeft true values last rest)
  have isRead := readElements_of_readsAs each enough
    (rfl : skipBlanks (elementsLeft true items last rest) = _)
  have isEnd : endArray (']' :: rest) = .ok rest := rfl
  rw [arrayText_append] at opened
  simp only [readArray, opened, bind, Except.bind, isRead, isEnd]

end FontRecord

end FontCatalog
