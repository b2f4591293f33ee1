import FontCatalog.Proofs.JsonSyntax

/-!
# Documents are JSON

What is written for a document, in either style and at any depth, is a JSON value: an array of what
is written for its elements, an object of what is written for its members. In compact style it takes
one line.
-/

namespace FontCatalog.Json

/-- The text of a fragment; a fault has none. -/
def Fragment.chars : Fragment → List Char
  | text chars => chars
  | pathNotText => []

/-- The text of a list of fragments. -/
def spelling (fragments : List Fragment) : List Char :=
  fragments.flatMap Fragment.chars

@[simp]
theorem spelling_nil : spelling [] = [] := rfl

@[simp]
theorem spelling_cons (chars : List Char) (fragments : List Fragment) :
    spelling (.text chars :: fragments) = chars ++ spelling fragments := rfl

@[simp]
theorem spelling_append (left right : List Fragment) :
    spelling (left ++ right) = spelling left ++ spelling right := by
  simp [spelling]

/-- A document has a text, which is a JSON value and takes one line in compact style. -/
structure Document.Legible (document : Document) : Prop where
  whole : ∀ style depth, Fragment.pathNotText ∉ document style depth
  isValue : ∀ style depth, IsValue (spelling (document style depth))
  single : ∀ depth, '\n' ∉ spelling (document .compact depth)

/-! ## Fixed texts, strings and integers -/

namespace Document

theorem spelling_literal (chars : List Char) (style : Style) (depth : Nat) :
    spelling (literal chars style depth) = chars := by
  simp [literal]

theorem legible_literal {chars : List Char} (isValue : IsValue chars) (single : '\n' ∉ chars) :
    (literal chars).Legible where
  whole := by
    intro style depth
    simp [literal]
  isValue := by
    intro style depth
    rw [spelling_literal]
    exact isValue
  single := by
    intro depth
    rw [spelling_literal]
    exact single

theorem legible_null : null.Legible :=
  legible_literal (.word (Or.inl rfl)) (by decide)

theorem legible_string (chars : List Char) : (string chars).Legible :=
  legible_literal (.string (spells_flatMap_escapeChar chars).isBody) (lineFeed_not_mem_quote chars)

theorem legible_integer (value : Int) : (integer value).Legible :=
  legible_literal (isValue_integer value) (lineFeed_not_mem_integer value)

theorem legible_optional {α : Type} {documentOf : α → Document}
    (legible : ∀ value, (documentOf value).Legible) (value? : Option α) :
    (optional documentOf value?).Legible := by
  cases value? with
  | none => exact legible_null
  | some value => exact legible value

end Document

/-! ## Arrays and objects -/

namespace Style

/-- The blanks at the start of a line. -/
def blanks (style : Style) (depth : Nat) : Blanks where
  chars := style.lineStart depth
  blank := by
    intro char inside
    cases style with
    | compact => cases inside
    | indented =>
        simp only [lineStart, List.mem_cons, List.mem_replicate] at inside
        rcases inside with rfl | ⟨-, rfl⟩
        · rfl
        · rfl

/-- The blanks after a colon. -/
def afterColon : Style → Blanks
  | compact => .none
  | indented => ⟨[' '], by simp [isBlank]⟩

theorem colon_eq (style : Style) : style.colon = ':' :: style.afterColon.chars := by
  cases style with
  | compact => rfl
  | indented => rfl

end Style

namespace Document

/-- An element as it is written. -/
def item (style : Style) (depth : Nat) (document : Document) : Item where
  before := style.blanks (depth + 1)
  value := spelling (document style (depth + 1))
  after := .none

/-- A member as it is written. -/
def member (style : Style) (depth : Nat) (field : String × Document) : Member where
  beforeKey := style.blanks (depth + 1)
  key := field.1.toList.flatMap escapeChar
  afterKey := .none
  item := ⟨style.afterColon, spelling (field.2 style (depth + 1)), .none⟩

variable {style : Style} {depth : Nat}

theorem spelling_elements (isFirst : Bool) (documents : List Document) :
    spelling (elements style depth isFirst documents) =
      separated isFirst ((documents.map (item style depth)).map Item.chars) := by
  induction documents generalizing isFirst with
  | nil => rfl
  | cons document documents ih =>
      simp [elements, ih, separated, item, Item.chars, Style.blanks, Blanks.none]

theorem spelling_members (isFirst : Bool) (fields : List (String × Document)) :
    spelling (members style depth isFirst fields) =
      separated isFirst ((fields.map (member style depth)).map Member.chars) := by
  induction fields generalizing isFirst with
  | nil => rfl
  | cons field fields ih =>
      simp [members, ih, separated, member, Member.chars, Item.chars, Style.blanks, Blanks.none,
        Style.colon_eq, quote, quoted]

/-- An empty array has no second line, so the blanks before the end depend on the elements. -/
theorem exists_spelling_array (documents : List Document) (style : Style) (depth : Nat) :
    ∃ last, spelling (array documents style depth) =
      arrayText (documents.map (item style depth)) last := by
  cases documents with
  | nil => exact ⟨.none, rfl⟩
  | cons document documents =>
      refine ⟨style.blanks depth, ?_⟩
      have spelled : spelling (elements style depth true (document :: documents)) = _ :=
        spelling_elements true _
      simp [array, spelled, arrayText, elementsLeft, closed, Style.blanks]

theorem spelling_object (fields : List (String × Document)) (style : Style) (depth : Nat) :
    spelling (object fields style depth) =
      objectText (fields.map (member style depth)) (style.blanks depth) := by
  simp [object, spelling_members, objectText, membersLeft, closed, Style.blanks]

theorem legible_elements {documents : List Document}
    (legible : ∀ document ∈ documents, document.Legible) (style : Style) (depth : Nat)
    (isFirst : Bool) :
    Fragment.pathNotText ∉ elements style depth isFirst documents ∧
      '\n' ∉ spelling (elements .compact depth isFirst documents) := by
  induction documents generalizing isFirst with
  | nil => simp [elements]
  | cons document documents ih =>
      rw [List.forall_mem_cons] at legible
      rcases ih legible.2 false with ⟨whole, single⟩
      constructor
      · simp [elements, legible.1.whole, whole]
      · cases isFirst <;> simp [elements, Style.lineStart, legible.1.single, single]

/-- An array is legible if its elements are. -/
theorem legible_array {documents : List Document}
    (legible : ∀ document ∈ documents, document.Legible) : (array documents).Legible where
  whole := by
    intro style depth
    have whole := (legible_elements legible style depth true).1
    cases documents with
    | nil => simp [array]
    | cons document documents => simp [array, whole]
  isValue := by
    intro style depth
    rcases exists_spelling_array documents style depth with ⟨last, isArray⟩
    rw [isArray]
    refine .array _ last ?_
    rw [List.forall_mem_map]
    intro document inside
    exact (legible document inside).isValue style (depth + 1)
  single := by
    intro depth
    have single := (legible_elements legible .compact depth true).2
    cases documents with
    | nil => simp [array]
    | cons document documents => simp [array, single, Style.lineStart]

theorem legible_members {fields : List (String × Document)}
    (legible : ∀ field ∈ fields, field.2.Legible) (style : Style) (depth : Nat)
    (isFirst : Bool) :
    Fragment.pathNotText ∉ members style depth isFirst fields ∧
      '\n' ∉ spelling (members .compact depth isFirst fields) := by
  induction fields generalizing isFirst with
  | nil => simp [members]
  | cons field fields ih =>
      rw [List.forall_mem_cons] at legible
      rcases ih legible.2 false with ⟨whole, single⟩
      constructor
      · simp [members, legible.1.whole, whole]
      · have key := lineFeed_not_mem_quote field.1.toList
        cases isFirst <;>
          simp [members, Style.lineStart, Style.colon, key, legible.1.single, single]

theorem isObject_map_member {fields : List (String × Document)}
    (legible : ∀ field ∈ fields, field.2.Legible) (style : Style) (depth : Nat) :
    IsObject (fields.map (member style depth)) where
  keys := by
    rw [List.forall_mem_map]
    intro field _
    exact (spells_flatMap_escapeChar field.1.toList).isBody
  values := by
    rw [List.forall_mem_map]
    intro field inside
    exact (legible field inside).isValue style (depth + 1)

/-- An object is legible if its members are. -/
theorem legible_object {fields : List (String × Document)}
    (legible : ∀ field ∈ fields, field.2.Legible) : (object fields).Legible where
  whole := by
    intro style depth
    have whole := (legible_members legible style depth true).1
    simp [object, whole]
  isValue := by
    intro style depth
    rw [spelling_object]
    exact (isObject_map_member legible style depth).isValue _
  single := by
    intro depth
    have single := (legible_members legible .compact depth true).2
    simp [object, single, Style.lineStart]

end Document

end FontCatalog.Json
