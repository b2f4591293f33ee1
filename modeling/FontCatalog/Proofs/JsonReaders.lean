import FontCatalog.Proofs.JsonSkipping
import Mathlib.Data.List.Forall2

/-!
# What readers take off a text

A reader that comes upon a JSON value either fails or takes exactly that value off the text,
whatever the value is. So after any value that it accepts a reader stands where the next token is
due, and what it accepts further on does not depend on how the values before were spelled.
-/

namespace FontCatalog.Json

variable {α β : Type} {text rest input others : List Char}

/-- The reader takes exactly a value off a text, if it gives anything for it. -/
def TakesValue (reader : Reader α) : Prop :=
  ∀ ⦃text rest input others : List Char⦄ ⦃value : α⦄, IsValue text → Follows rest →
    skipBlanks input = text ++ rest → reader input = .ok (value, others) → others = rest

/-- The reader reads a text as a value, whatever follows. -/
def ReadsAs (reader : Reader α) (text : List Char) (value : α) : Prop :=
  ∀ ⦃input rest : List Char⦄, skipBlanks input = text ++ rest → Follows rest →
    reader input = .ok (value, rest)

theorem exists_of_bind {first : Except Fault α} {next : α → Except Fault β} {result : β}
    (isResult : (first >>= next) = .ok result) :
    ∃ value, first = .ok value ∧ next value = .ok result := by
  cases first with
  | error fault => cases isResult
  | ok value => exact ⟨value, rfl, isResult⟩

/-- Reads a value and puts it where it belongs. -/
def fill (reader : Reader α) (update : α → β) : Reader β := fun text => do
  let (value, rest) ← reader text
  .ok (update value, rest)

theorem exists_of_fill {reader : Reader α} {update : α → β} {filled : β}
    (isRead : fill reader update input = .ok (filled, rest)) :
    ∃ value, reader input = .ok (value, rest) ∧ filled = update value := by
  rcases exists_of_bind isRead with ⟨⟨value, left⟩, isFirst, isFilled⟩
  cases isFilled
  exact ⟨value, isFirst, rfl⟩

theorem takesValue_fill {reader : Reader α} (takesValue : TakesValue reader) (update : α → β) :
    TakesValue (fill reader update) := by
  intro text rest input others value isValue follows opened isRead
  rcases exists_of_fill isRead with ⟨read, isFirst, -⟩
  exact takesValue isValue follows opened isFirst

theorem ReadsAs.fill {reader : Reader α} {value : α} (readsAs : ReadsAs reader text value)
    (update : α → β) : ReadsAs (fill reader update) text (update value) := by
  intro input rest opened follows
  rw [Json.fill, readsAs opened follows]
  rfl

/-! ## Texts and `null` -/

theorem spells_of_readText {expected : Expected} {value : List Char} (isValue : IsValue text)
    (opened : skipBlanks input = text ++ rest)
    (isRead : readText expected input = .ok (value, others)) :
    ∃ body, text = quoted body ∧ Spells body value ∧ others = rest := by
  simp only [readText] at isRead
  split at isRead
  · rename_i inside starts
    rcases isValue.of_quote (opened.symm.trans starts) with ⟨body, rfl, isBody, rfl⟩
    rcases isBody.spells_of_readString isRead with ⟨spells, isRest⟩
    exact ⟨body, rfl, spells, isRest⟩
  · cases isRead

theorem takesValue_readText (expected : Expected) : TakesValue (readText expected) := by
  intro text rest input others value isValue _ opened isRead
  rcases spells_of_readText isValue opened isRead with ⟨-, -, -, isRest⟩
  exact isRest

theorem takesValue_readNull : TakesValue readNull := by
  intro text rest input others value isValue _ opened isRead
  simp only [readNull] at isRead
  split at isRead
  · rename_i inside starts
    rcases isValue.of_n (opened.symm.trans starts) with ⟨-, rfl⟩
    cases isRead
    rfl
  · cases isRead

theorem takesValue_readOptional {reader : Reader α} (takesValue : TakesValue reader) :
    TakesValue (readOptional reader) := by
  intro text rest input others value isValue follows opened isRead
  simp only [readOptional] at isRead
  split at isRead
  · rename_i inside starts
    rcases isValue.of_n (opened.symm.trans starts) with ⟨-, rfl⟩
    cases isRead
    rfl
  · rcases exists_of_bind isRead with ⟨⟨read, left⟩, isFirst, isLeft⟩
    cases isLeft
    apply takesValue isValue follows _ isFirst
    rw [opened, isValue.skipBlanks_append]

/-- A value that is not `null` is read as it would be read by itself. -/
theorem exists_of_readOptional {reader : Reader α} {value : Option α} (isValue : IsValue text)
    (notNull : text.head? ≠ some 'n') (opened : skipBlanks input = text ++ rest)
    (isRead : readOptional reader input = .ok (value, others)) :
    ∃ held, reader (text ++ rest) = .ok (held, others) := by
  rcases isValue.exists_eq_cons with ⟨first, inside, rfl, -, -⟩
  simp only [readOptional, opened] at isRead
  split at isRead
  · rename_i isNull
    cases isNull
    exact absurd rfl notNull
  · rcases exists_of_bind isRead with ⟨⟨held, left⟩, isHeld, isLeft⟩
    cases isLeft
    exact ⟨held, isHeld⟩

/-! ## Integers -/

/-- Digits that are all taken into a significand are its number. -/
theorem eq_of_absorb {digits : List Char} {significand number : Nat}
    (absorbed : absorb significand digits = (number, [])) :
    number = Nat.ofDigitChars 10 digits significand := by
  induction digits generalizing significand with
  | nil =>
      cases absorbed
      rfl
  | cons digit digits ih =>
      simp only [absorb] at absorbed
      split at absorbed
      · cases absorbed
      · rw [ih absorbed, Nat.ofDigitChars_cons, Nat.mul_comm]
        rfl

namespace Numeral

/-- The number is spelled as an integer, without a fraction and without an exponent. -/
structure IsInteger (numeral : Numeral) (value : Int) : Prop where
  noFraction : numeral.fraction = none
  noExponent : numeral.exponent = none
  value_eq : value =
    if numeral.negative then -(numeral.whole.number : Int) else numeral.whole.number

variable (numeral : Numeral) {value : Int}

theorem readUnsigned_append (ends : EndsDigits rest) (negative : Bool) :
    readUnsigned negative (numeral.whole.chars ++ rest) =
      readAfterDigits negative (absorb 0 numeral.whole.chars).1
        (absorb 0 numeral.whole.chars).2.length rest := by
  have taken := takeWhile_isDigit numeral.whole.areDigits ends
  have dropped := dropWhile_isDigit numeral.whole.areDigits ends
  rcases numeral.whole.exists_eq_cons with ⟨first, others, isChars, isDigit⟩
  by_cases isZero : first = '0'
  · rw [numeral.noExtraZero (by rw [isChars, isZero]; rfl)]
    cases rest with
    | nil => rfl
    | cons char rest =>
        simp only [List.cons_append, List.nil_append, readUnsigned, ends char rfl,
          Bool.false_eq_true, if_false]
        rfl
  · rw [isChars, List.cons_append] at taken dropped ⊢
    rw [List.dropWhile_cons_of_pos isDigit] at dropped
    rw [readUnsigned]
    · simp only [isDigit, if_true, taken, dropped]
    · exact isZero

theorem readNumber_append :
    readNumber (numeral.chars ++ rest) =
      readUnsigned numeral.negative (numeral.whole.chars ++ (numeral.scale ++ rest)) := by
  rw [chars]
  cases numeral.negative with
  | true => simp [readNumber]
  | false =>
      rcases numeral.whole.exists_eq_cons with ⟨first, others, isChars, isDigit⟩
      have notMinus : first ≠ '-' := by
        rintro rfl
        cases isDigit
      rw [isChars]
      simp only [Bool.false_eq_true, if_false, List.nil_append, List.cons_append,
        List.append_assoc]
      rw [readNumber]
      rintro _ ⟨⟩
      exact notMinus rfl

/-- A real number is not read as an integer. -/
theorem ne_integer_of_real {result : Except Fault (Float × List Char)} :
    (do
      let (read, left) ← result
      .ok (Number.real read, left)) ≠ .ok (Number.integer value, others) := by
  intro isRead
  rcases exists_of_bind isRead with ⟨⟨read, left⟩, -, isReal⟩
  cases isReal

theorem eq_of_integerNumber {negative : Bool} {significand : Nat}
    (isInteger : integerNumber negative significand = .integer value) :
    value = if negative then -(significand : Int) else significand := by
  simp only [integerNumber] at isInteger
  split at isInteger
  · split at isInteger
    · cases isInteger
    · cases isInteger
      simp [*]
  · cases isInteger
    simp [*]

theorem integer_of_readAfterDigits {negative : Bool} {significand left : Nat}
    (follows : Follows rest)
    (isRead : readAfterDigits negative significand left (numeral.scale ++ rest) =
      .ok (.integer value, others)) :
    numeral.fraction = none ∧ numeral.exponent = none ∧ others = rest ∧ left = 0 ∧
      value = if negative then -(significand : Int) else significand := by
  cases isFraction : numeral.fraction with
  | some digits =>
      have isScale : numeral.scale = '.' :: (digits.chars ++ numeral.power) := by
        simp [scale, isFraction]
      rw [isScale] at isRead
      exact absurd isRead ne_integer_of_real
  | none =>
      cases isExponent : numeral.exponent with
      | some exponent =>
          have isScale : numeral.scale = exponent.chars := by
            simp [scale, power, isFraction, isExponent]
          rw [isScale, Exponent.chars] at isRead
          rcases exponent.isLetter with isLetter | isLetter
          · rw [isLetter] at isRead
            exact absurd isRead ne_integer_of_real
          · rw [isLetter] at isRead
            exact absurd isRead ne_integer_of_real
      | none =>
          have isScale : numeral.scale = [] := by
            simp [scale, power, isFraction, isExponent]
          rw [isScale, List.nil_append, readAfterDigits_of_follows _ _ _ follows] at isRead
          split at isRead
          · rename_i isWhole
            simp only [Except.ok.injEq, Prod.mk.injEq] at isRead
            exact ⟨rfl, rfl, isRead.2.symm, isWhole, eq_of_integerNumber isRead.1⟩
          · rcases exists_of_bind isRead with ⟨real, -, isReal⟩
            cases isReal

/-- A numeral that is read as an integer is spelled as one. -/
theorem integer_of_readNumber (follows : Follows rest)
    (isRead : readNumber (numeral.chars ++ rest) = .ok (.integer value, others)) :
    numeral.IsInteger value ∧ others = rest := by
  have isUnsigned : readUnsigned numeral.negative
      (numeral.whole.chars ++ (numeral.scale ++ rest)) = .ok (.integer value, others) := by
    rw [← numeral.readNumber_append, isRead]
  rw [numeral.readUnsigned_append (numeral.endsDigits_scale follows)] at isUnsigned
  rcases numeral.integer_of_readAfterDigits follows isUnsigned with
    ⟨noFraction, noExponent, isRest, isWhole, isValue⟩
  have absorbed : absorb 0 numeral.whole.chars = ((absorb 0 numeral.whole.chars).1, []) := by
    rw [← List.eq_nil_of_length_eq_zero isWhole]
  rw [eq_of_absorb absorbed] at isValue
  exact ⟨⟨noFraction, noExponent, isValue⟩, isRest⟩

variable {expected : Expected} {lowest highest : Int}

/-- A numeral that a reader of integers accepts is spelled as an integer in its range. -/
theorem integer_of_readInteger (follows : Follows rest)
    (opened : skipBlanks input = numeral.chars ++ rest)
    (isRead : readInteger expected lowest highest input = .ok (value, others)) :
    numeral.IsInteger value ∧ (lowest ≤ value ∧ value ≤ highest) ∧ others = rest := by
  rcases numeral.exists_chars_eq_cons with ⟨first, inside, isChars, isFirst⟩
  have isOpened : skipBlanks input = first :: (inside ++ rest) := by
    rw [opened, isChars, List.cons_append]
  simp only [readInteger, isOpened, isFirst, if_true] at isRead
  rcases exists_of_bind isRead with ⟨⟨number, left⟩, isNumber, isInteger⟩
  rw [← List.cons_append, ← isChars] at isNumber
  cases number with
  | real read => cases isInteger
  | integer read =>
      dsimp only at isInteger
      split at isInteger
      · rename_i inRange
        cases isInteger
        rcases numeral.integer_of_readNumber follows isNumber with ⟨isSpelled, isRest⟩
        exact ⟨isSpelled, inRange, isRest⟩
      · cases isInteger

end Numeral

theorem takesValue_readInteger (expected : Expected) (lowest highest : Int) :
    TakesValue (readInteger expected lowest highest) := by
  intro text rest input others value isValue follows opened isRead
  have exists_numeral : ∃ numeral : Numeral, text = numeral.chars := by
    rcases isValue.exists_eq_cons with ⟨first, inside, rfl, -, -⟩
    simp only [readInteger, opened, List.cons_append] at isRead
    split at isRead
    · rename_i isFirst
      exact isValue.of_sign isFirst
    · cases isRead
  rcases exists_numeral with ⟨numeral, rfl⟩
  exact (numeral.integer_of_readInteger follows opened isRead).2.2

/-! ### Integers that are read back -/

theorem absorb_digits {number : Nat} (fits : number ≤ significandLimit) :
    absorb 0 (Decimal.digits number) = (number, []) := by
  have isNumber : Nat.ofDigitChars 10 (Decimal.digits number) 0 = number :=
    Nat.ofDigitChars_ten_toDigits
  rw [absorb_eq (by rw [isNumber]; exact fits), isNumber]

theorem Numeral.readNumber_of_absorb {numeral : Numeral} {number : Nat}
    (isWhole : numeral.scale = []) (absorbed : absorb 0 numeral.whole.chars = (number, []))
    (follows : Follows rest) :
    readNumber (numeral.chars ++ rest) = .ok (integerNumber numeral.negative number, rest) := by
  rw [readNumber_append, isWhole, List.nil_append, readUnsigned_append _ follows.endsDigits,
    absorbed]
  exact readAfterDigits_of_follows _ _ 0 follows

/-- An integer of at most 64 bits is read back. -/
theorem readNumber_integer {value : Int} (least : -0x8000000000000000 ≤ value)
    (most : value ≤ 0xFFFFFFFFFFFFFFFF) (follows : Follows rest) :
    readNumber (Decimal.integer value ++ rest) = .ok (.integer value, rest) := by
  rw [← Numeral.chars_ofInteger]
  cases value with
  | ofNat number =>
      have fits : number ≤ significandLimit := by
        simp only [Int.ofNat_eq_natCast] at most
        simp only [significandLimit]
        omega
      exact Numeral.readNumber_of_absorb rfl (absorb_digits fits) follows
  | negSucc number =>
      have fits : number + 1 ≤ significandLimit := by
        simp only [significandLimit]
        omega
      have inRange : ¬(number + 1 = 0 ∨ 0x8000000000000000 < number + 1) := by omega
      have isInteger : integerNumber true (number + 1) = .integer (.negSucc number) := by
        simp only [integerNumber, inRange, if_true, if_false]
        rfl
      rw [← isInteger]
      exact Numeral.readNumber_of_absorb rfl (absorb_digits fits) follows

theorem readsAs_integer (expected : Expected) {lowest highest value : Int}
    (least : -0x8000000000000000 ≤ lowest) (most : highest ≤ 0xFFFFFFFFFFFFFFFF)
    (inRange : lowest ≤ value ∧ value ≤ highest) :
    ReadsAs (readInteger expected lowest highest) (Decimal.integer value) value := by
  intro input rest opened follows
  have isNumber := readNumber_integer (Int.le_trans least inRange.1)
    (Int.le_trans inRange.2 most) follows
  rcases (Numeral.ofInteger value).exists_chars_eq_cons with ⟨first, others, isChars, isFirst⟩
  rw [Numeral.chars_ofInteger] at isChars
  rw [isChars, List.cons_append] at opened isNumber
  simp only [readInteger, opened, isFirst, if_true, isNumber]
  simp [inRange, bind, Except.bind]

theorem readsAs_int32 (value : Int32) :
    ReadsAs readInt32 (Decimal.integer value.toInt) value := by
  have least := value.le_toInt
  have most := value.toInt_lt
  have readsInteger := readsAs_integer .signedInteger (by decide) (by decide)
    (show -0x80000000 ≤ value.toInt ∧ value.toInt ≤ 0x7FFFFFFF by omega)
  have filled := readsInteger.fill Int32.ofInt
  rw [Int32.ofInt_toInt] at filled
  exact filled

theorem readsAs_uint32 (value : UInt32) :
    ReadsAs readUInt32 (Decimal.integer value.toNat) value := by
  have most := value.toNat_lt
  have readsInteger := readsAs_integer .unsignedInteger (by decide) (by decide)
    (show 0 ≤ (value.toNat : Int) ∧ (value.toNat : Int) ≤ 0xFFFFFFFF by omega)
  have filled := readsInteger.fill fun value => UInt32.ofNat value.toNat
  rw [Int.toNat_natCast, UInt32.ofNat_toNat] at filled
  exact filled

theorem readsAs_byte (value : UInt8) : ReadsAs readByte (Decimal.integer value.toNat) value := by
  have most := value.toNat_lt
  have readsInteger := readsAs_integer .byte (by decide) (by decide)
    (show 0 ≤ (value.toNat : Int) ∧ (value.toNat : Int) ≤ 255 by omega)
  have filled := readsInteger.fill fun value => UInt8.ofNat value.toNat
  rw [Int.toNat_natCast, UInt8.ofNat_toNat] at filled
  exact filled

theorem takesValue_readInt32 : TakesValue readInt32 :=
  takesValue_fill (takesValue_readInteger _ _ _) Int32.ofInt

theorem takesValue_readUInt32 : TakesValue readUInt32 :=
  takesValue_fill (takesValue_readInteger _ _ _) fun value => UInt32.ofNat value.toNat

theorem takesValue_readByte : TakesValue readByte :=
  takesValue_fill (takesValue_readInteger _ _ _) fun value => UInt8.ofNat value.toNat

/-! ## Arrays -/

variable {items : List Item} {item : Item} {last : Blanks} {reader : Reader α} {isFirst : Bool}

theorem readElement?_nil
    (opened : skipBlanks input = skipBlanks (elementsLeft isFirst [] last rest)) :
    readElement? reader isFirst input = .ok (none, ']' :: rest) := by
  have isEnd := opened.trans (skipBlanks_elementsLeft_nil isFirst last rest)
  simp only [readElement?, nextElement, isEnd]
  rfl

/-- The next element is read from its first character on. -/
theorem readElement?_cons (isValue : IsValue item.value)
    (opened : skipBlanks input = skipBlanks (elementsLeft isFirst (item :: items) last rest)) :
    readElement? reader isFirst input =
      reader (item.value ++ (item.after.chars ++ elementsLeft false items last rest)) >>=
        fun (value, others) => .ok (some value, others) := by
  have isItem := isValue.skipBlanks_item (elementsLeft false items last rest)
  have isNext : nextElement isFirst input =
      .ok (true, item.value ++ (item.after.chars ++ elementsLeft false items last rest)) := by
    rcases isValue.exists_eq_cons with ⟨first, others, starts, solid, notEnd⟩
    rw [starts, List.cons_append] at isItem ⊢
    cases isFirst with
    | true =>
        rw [elementsLeft_first] at opened
        exact nextElement_true (opened.trans isItem) notEnd
    | false =>
        rw [elementsLeft_next] at opened
        exact nextElement_false opened isItem notEnd
  rw [readElement?, isNext]
  rfl

/-- The next element is taken off an array, if there is one. -/
theorem cases_of_readElement? {element : Option α} (takesValue : TakesValue reader)
    (values : ∀ item ∈ items, IsValue item.value)
    (opened : skipBlanks input = skipBlanks (elementsLeft isFirst items last rest))
    (isRead : readElement? reader isFirst input = .ok (element, others)) :
    (items = [] ∧ element = none ∧ others = ']' :: rest) ∨
      ∃ item later value left, items = item :: later ∧ element = some value ∧
        skipBlanks others = skipBlanks (elementsLeft false later last rest) ∧
        reader (item.value ++ (item.after.chars ++ elementsLeft false later last rest)) =
          .ok (value, left) := by
  cases items with
  | nil =>
      rw [readElement?_nil opened] at isRead
      cases isRead
      exact Or.inl ⟨rfl, rfl, rfl⟩
  | cons item later =>
      rw [List.forall_mem_cons] at values
      rw [readElement?_cons values.1 opened] at isRead
      rcases exists_of_bind isRead with ⟨⟨value, left⟩, isElement, isOthers⟩
      cases isOthers
      have follows := (follows_elementsLeft later last rest).append_blanks item.after
      have isLeft := takesValue values.1 follows (values.1.skipBlanks_append _) isElement
      refine Or.inr ⟨item, later, value, others, rfl, rfl, ?_, isElement⟩
      rw [isLeft, skipBlanks_append]

/-- An array ends only where no element is left. -/
theorem nil_of_endArray (values : ∀ item ∈ items, IsValue item.value)
    (opened : skipBlanks input = skipBlanks (elementsLeft isFirst items last rest))
    (isRead : endArray input = .ok others) : items = [] ∧ others = rest := by
  cases items with
  | nil =>
      have isEnd := opened.trans (skipBlanks_elementsLeft_nil isFirst last rest)
      simp only [endArray, isEnd] at isRead
      cases isRead
      exact ⟨rfl, rfl⟩
  | cons item later =>
      rw [List.forall_mem_cons] at values
      have notEnd : (skipBlanks input).head? ≠ some ']' := by
        rw [opened]
        cases isFirst with
        | true =>
            rcases values.1.exists_eq_cons with ⟨first, inside, starts, -, notBracket⟩
            rw [elementsLeft_first, values.1.skipBlanks_item, starts]
            simpa using notBracket
        | false =>
            rw [elementsLeft_next, skipBlanks_of_not_isBlank rfl]
            simp
      simp only [endArray] at isRead
      split at isRead
      · cases isRead
      · rename_i isEnd
        rw [isEnd] at notEnd
        exact absurd rfl notEnd
      · split at isRead <;> cases isRead
      · cases isRead

theorem length_le_elementsLeft (isFirst : Bool) {items : List Item}
    (values : ∀ item ∈ items, IsValue item.value) (last : Blanks) (rest : List Char) :
    items.length ≤ (elementsLeft isFirst items last rest).length := by
  induction items generalizing isFirst with
  | nil => simp
  | cons item items ih =>
      rw [List.forall_mem_cons] at values
      have others := ih false values.2
      cases isFirst with
      | true =>
          rcases values.1.exists_eq_cons with ⟨first, inside, starts, -, -⟩
          rw [elementsLeft_first]
          simp only [List.length_append, List.length_cons, Item.chars, starts]
          omega
      | false =>
          rw [elementsLeft_next]
          simp only [List.length_append, List.length_cons]
          omega

theorem readElements_of_readsAs {values : List α}
    (readsAs : List.Forall₂ (fun item value => IsValue item.value ∧ ReadsAs reader item.value value)
      items values)
    {fuel : Nat} (enough : items.length < fuel)
    (opened : skipBlanks input = skipBlanks (elementsLeft isFirst items last rest)) :
    readElements reader fuel isFirst input = .ok (values, ']' :: rest) := by
  induction readsAs generalizing fuel isFirst input with
  | nil =>
      cases fuel with
      | zero => cases enough
      | succ fuel =>
          rw [readElements, readElement?_nil opened]
          rfl
  | @cons item value items values isItem _ ih =>
      cases fuel with
      | zero => cases enough
      | succ fuel =>
          rcases isItem with ⟨isValue, readsItem⟩
          have follows := (follows_elementsLeft items last rest).append_blanks item.after
          have isElement := readsItem (isValue.skipBlanks_append _) follows
          have later := ih (Nat.lt_of_succ_lt_succ enough)
            (skipBlanks_append item.after (elementsLeft false items last rest))
          rw [readElements, readElement?_cons isValue opened, isElement]
          simp only [bind, Except.bind, later]

/-- Every element of an array that is read is read by itself, and the array is all that is read. -/
theorem exists_of_readElements {values : List α} {fuel : Nat} (takesValue : TakesValue reader)
    (areValues : ∀ item ∈ items, IsValue item.value)
    (opened : skipBlanks input = skipBlanks (elementsLeft isFirst items last rest))
    (isRead : readElements reader fuel isFirst input = .ok (values, others)) :
    others = ']' :: rest ∧ ∀ item ∈ items, ∃ after value left, Follows after ∧
      reader (item.value ++ after) = .ok (value, left) := by
  induction items generalizing fuel isFirst input values with
  | nil =>
      cases fuel with
      | zero => cases isRead
      | succ fuel =>
          rw [readElements, readElement?_nil opened] at isRead
          cases isRead
          exact ⟨rfl, by simp⟩
  | cons item items ih =>
      cases fuel with
      | zero => cases isRead
      | succ fuel =>
          rw [readElements] at isRead
          rcases exists_of_bind isRead with ⟨⟨element, afterElement⟩, isElement, isLater⟩
          rcases cases_of_readElement? takesValue areValues opened isElement with
            ⟨isNil, -, -⟩ | ⟨item, later, value, left, isCons, rfl, isOpened, isItem⟩
          · cases isNil
          · cases isCons
            rcases exists_of_bind isLater with ⟨⟨values, afterValues⟩, isValues, isOthers⟩
            cases isOthers
            rw [List.forall_mem_cons] at areValues
            rcases ih areValues.2 isOpened isValues with ⟨isRest, eachRead⟩
            refine ⟨isRest, ?_⟩
            rw [List.forall_mem_cons]
            have follows := (follows_elementsLeft items last rest).append_blanks item.after
            exact ⟨⟨_, value, left, follows, isItem⟩, eachRead⟩

/-- Elements of a fixed number are read off the front of the array. -/
theorem readExactly_of_readsAs {values : List α} {found : Nat} (expected : String)
    (readsAs : List.Forall₂ (fun item value => IsValue item.value ∧ ReadsAs reader item.value value)
      items values)
    (opened : skipBlanks input = skipBlanks (elementsLeft (found = 0) items last rest)) :
    ∃ left, readExactly reader expected found values.length input = .ok (values, left) ∧
      skipBlanks left = ']' :: rest := by
  induction readsAs generalizing found input with
  | nil =>
      refine ⟨input, rfl, ?_⟩
      rw [opened]
      exact skipBlanks_elementsLeft_nil _ last rest
  | @cons item value items values isItem _ ih =>
      rcases isItem with ⟨isValue, readsItem⟩
      have follows := (follows_elementsLeft items last rest).append_blanks item.after
      have isElement := readsItem (isValue.skipBlanks_append _) follows
      have isOpened : skipBlanks (item.after.chars ++ elementsLeft false items last rest) =
          skipBlanks (elementsLeft (found + 1 = 0) items last rest) := by
        rw [skipBlanks_append]
        rfl
      rcases ih isOpened with ⟨left, isLater, isEnd⟩
      refine ⟨left, ?_, isEnd⟩
      rw [List.length_cons, readExactly, readElement?_cons isValue opened, isElement]
      simp only [bind, Except.bind, isLater]

theorem exists_of_readExactly {values : List α} {expected : String} {found count : Nat}
    (takesValue : TakesValue reader) (areValues : ∀ item ∈ items, IsValue item.value)
    (opened : skipBlanks input = skipBlanks (elementsLeft (found = 0) items last rest))
    (isRead : readExactly reader expected found count input = .ok (values, others)) :
    ∃ before later, items = before ++ later ∧ before.length = count ∧
      skipBlanks others = skipBlanks (elementsLeft (found + count = 0) later last rest) := by
  induction count generalizing items found input values with
  | zero =>
      cases isRead
      exact ⟨[], items, rfl, rfl, opened⟩
  | succ count ih =>
      rw [readExactly] at isRead
      rcases exists_of_bind isRead with ⟨⟨element, afterElement⟩, isElement, isLater⟩
      rcases cases_of_readElement? takesValue areValues opened isElement with
        ⟨-, rfl, -⟩ | ⟨item, items, value, left, rfl, rfl, isOpened, -⟩
      · cases isLater
      · rcases exists_of_bind isLater with ⟨⟨values, afterValues⟩, isValues, isOthers⟩
        cases isOthers
        rw [List.forall_mem_cons] at areValues
        have isNext : skipBlanks afterElement =
            skipBlanks (elementsLeft (found + 1 = 0) items last rest) := isOpened
        rcases ih areValues.2 isNext isValues with ⟨before, later, rfl, isCount, isLeft⟩
        refine ⟨item :: before, later, rfl, by rw [List.length_cons, isCount], ?_⟩
        rw [isLeft, Nat.add_assoc, Nat.add_comm 1 count]

/-! ## Objects -/

variable {members : List Member} {member : Member}

/-- What is left of an object from the colon of a member on. -/
def colonLeft (member : Member) (others : List Char) : List Char :=
  member.afterKey.chars ++ ':' :: (member.item.chars ++ others)

theorem readKey?_nil
    (opened : skipBlanks input = skipBlanks (membersLeft isFirst [] last rest)) :
    readKey? isFirst input = .ok (none, '\x7d' :: rest) := by
  have isEnd := opened.trans (skipBlanks_membersLeft_nil isFirst last rest)
  simp only [readKey?, isEnd]

/-- The next key is read as a string. -/
theorem readKey?_cons
    (opened : skipBlanks input = skipBlanks (membersLeft isFirst (member :: members) last rest)) :
    readKey? isFirst input =
      readString (member.key ++ '"' ::
          colonLeft member (membersLeft false members last rest)) >>=
        fun (name, others) => .ok (some name, others) := by
  have isMember := member.skipBlanks_append (membersLeft false members last rest)
  cases isFirst with
  | true =>
      rw [membersLeft_first] at opened
      have isKey := opened.trans isMember
      simp only [readKey?, isKey, if_true]
      rfl
  | false =>
      rw [membersLeft_next] at opened
      have isComma := opened.trans (skipBlanks_of_not_isBlank rfl _)
      simp [readKey?, isComma, isMember, colonLeft]

theorem length_le_membersLeft (isFirst : Bool) (members : List Member) (last : Blanks)
    (rest : List Char) : members.length ≤ (membersLeft isFirst members last rest).length := by
  induction members generalizing isFirst with
  | nil => simp
  | cons member members ih =>
      have others := ih false
      cases isFirst with
      | true =>
          rw [membersLeft_first]
          simp only [List.length_append, List.length_cons, Member.chars, quoted]
          omega
      | false =>
          rw [membersLeft_next]
          simp only [List.length_append, List.length_cons]
          omega

end FontCatalog.Json
