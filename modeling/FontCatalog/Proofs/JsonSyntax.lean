import FontCatalog.Proofs.JsonTokens

/-!
# The syntax of JSON

Which texts are JSON values, and what a string spells. Blanks may stand between any two tokens. A
value is told by its first character, so a reader that comes upon one knows what it is from there
on.
-/

namespace FontCatalog.Json

variable {text rest inside : List Char} {char : Char}

/-! ## Blanks -/

/-- The blanks between two tokens. -/
structure Blanks where
  chars : List Char
  blank : ∀ char ∈ chars, isBlank char = true

/-- No blanks at all. -/
def Blanks.none : Blanks :=
  ⟨[], by simp⟩

@[simp]
theorem skipBlanks_append (blanks : Blanks) (rest : List Char) :
    skipBlanks (blanks.chars ++ rest) = skipBlanks rest :=
  List.dropWhile_append_of_pos blanks.blank

theorem mem_followers_of_isBlank (blank : isBlank char = true) : char ∈ followers := by
  simp only [isBlank, Bool.or_eq_true, decide_eq_true_eq] at blank
  rcases blank with ((rfl | rfl) | rfl) | rfl
  all_goals decide

theorem Follows.append_blanks (follows : Follows rest) (blanks : Blanks) :
    Follows (blanks.chars ++ rest) := by
  rcases blanks with ⟨chars, blank⟩
  cases chars with
  | nil => exact follows
  | cons first others =>
      exact follows_cons (mem_followers_of_isBlank (blank first List.mem_cons_self)) _

/-! ## Strings -/

/-- The text may stand between the quotes of a string. The surrogates in it need not be paired. -/
inductive IsBody : List Char → Prop where
  | nil : IsBody []
  | plain {char : Char} {rest : List Char} (notQuote : char ≠ '"') (notBackslash : char ≠ '\\')
      (notControl : ¬char.toNat < 0x20) (others : IsBody rest) : IsBody (char :: rest)
  | letter {letter char : Char} {rest : List Char} (stands : escaped? letter = some char)
      (others : IsBody rest) : IsBody ('\\' :: letter :: rest)
  | code {char1 char2 char3 char4 : Char} {unit : Nat} {rest : List Char}
      (isUnit : hexNumber? char1 char2 char3 char4 = some unit) (others : IsBody rest) :
      IsBody ('\\' :: 'u' :: char1 :: char2 :: char3 :: char4 :: rest)

/-- What stands between the quotes of a string spells a text. -/
inductive Spells : List Char → List Char → Prop where
  | nil : Spells [] []
  | plain {char : Char} {rest text : List Char} (notQuote : char ≠ '"') (notBackslash : char ≠ '\\')
      (notControl : ¬char.toNat < 0x20) (others : Spells rest text) :
      Spells (char :: rest) (char :: text)
  | letter {letter char : Char} {rest text : List Char} (stands : escaped? letter = some char)
      (others : Spells rest text) : Spells ('\\' :: letter :: rest) (char :: text)
  | code {char1 char2 char3 char4 : Char} {unit : Nat} {rest text : List Char}
      (isUnit : hexNumber? char1 char2 char3 char4 = some unit)
      (notLead : isLeadSurrogate unit = false) (notTrail : isTrailSurrogate unit = false)
      (others : Spells rest text) :
      Spells ('\\' :: 'u' :: char1 :: char2 :: char3 :: char4 :: rest) (Char.ofNat unit :: text)
  | pair {char1 char2 char3 char4 char5 char6 char7 char8 : Char} {lead trail : Nat}
      {rest text : List Char} (isLead : hexNumber? char1 char2 char3 char4 = some lead)
      (leads : isLeadSurrogate lead = true)
      (isTrail : hexNumber? char5 char6 char7 char8 = some trail)
      (trails : isTrailSurrogate trail = true) (others : Spells rest text) :
      Spells
        ('\\' :: 'u' :: char1 :: char2 :: char3 :: char4 ::
          '\\' :: 'u' :: char5 :: char6 :: char7 :: char8 :: rest)
        (surrogatePair lead trail :: text)

variable {body : List Char}

theorem Spells.isBody (spells : Spells body text) : IsBody body := by
  induction spells with
  | nil => exact .nil
  | plain notQuote notBackslash notControl _ ih => exact .plain notQuote notBackslash notControl ih
  | letter stands _ ih => exact .letter stands ih
  | code isUnit _ _ _ ih => exact .code isUnit ih
  | pair isLead _ isTrail _ _ ih => exact .code isLead (.code isTrail ih)

theorem ne_u_of_escaped? {letter : Char} (stands : escaped? letter = some char) : letter ≠ 'u' := by
  rintro rfl
  cases stands

theorem notTrail_of_lead {unit : Nat} (leads : isLeadSurrogate unit = true) :
    isTrailSurrogate unit = false := by
  simp only [isLeadSurrogate, isTrailSurrogate, Bool.and_eq_true, decide_eq_true_eq] at leads ⊢
  simp
  omega

theorem readString_plain (notQuote : char ≠ '"') (notBackslash : char ≠ '\\')
    (notControl : ¬char.toNat < 0x20) (rest : List Char) :
    readString (char :: rest) = prepend char (readString rest) := by
  rw [readString]
  · rw [if_neg notControl]
  all_goals simp [notQuote, notBackslash]

theorem readString_letter {letter : Char} (stands : escaped? letter = some char)
    (rest : List Char) :
    readString ('\\' :: letter :: rest) = prepend char (readString rest) := by
  simp [readString, ne_u_of_escaped? stands, stands]

theorem readString_code {char1 char2 char3 char4 : Char} {unit : Nat}
    (isUnit : hexNumber? char1 char2 char3 char4 = some unit)
    (notLead : isLeadSurrogate unit = false) (notTrail : isTrailSurrogate unit = false)
    (rest : List Char) :
    readString ('\\' :: 'u' :: char1 :: char2 :: char3 :: char4 :: rest) =
      prepend (Char.ofNat unit) (readString rest) := by
  simp [readString, isUnit, notLead, notTrail]

theorem readString_pair {char1 char2 char3 char4 char5 char6 char7 char8 : Char} {lead trail : Nat}
    (isLead : hexNumber? char1 char2 char3 char4 = some lead)
    (leads : isLeadSurrogate lead = true)
    (isTrail : hexNumber? char5 char6 char7 char8 = some trail)
    (trails : isTrailSurrogate trail = true) (rest : List Char) :
    readString
        ('\\' :: 'u' :: char1 :: char2 :: char3 :: char4 ::
          '\\' :: 'u' :: char5 :: char6 :: char7 :: char8 :: rest) =
      prepend (surrogatePair lead trail) (readString rest) := by
  simp [readString, isLead, leads, isTrail, trails, notTrail_of_lead leads]

/-- A string is read as the text that it spells. -/
theorem Spells.readString_eq (spells : Spells body text) (rest : List Char) :
    readString (body ++ '"' :: rest) = .ok (text, rest) := by
  induction spells with
  | nil => rfl
  | plain notQuote notBackslash notControl _ ih =>
      rw [List.cons_append, readString_plain notQuote notBackslash notControl, ih]
      rfl
  | letter stands _ ih =>
      rw [List.cons_append, List.cons_append, readString_letter stands, ih]
      rfl
  | code isUnit notLead notTrail _ ih =>
      simp only [List.cons_append]
      rw [readString_code isUnit notLead notTrail, ih]
      rfl
  | pair isLead leads isTrail trails _ ih =>
      simp only [List.cons_append]
      rw [readString_pair isLead leads isTrail trails, ih]
      rfl

/-- A string spells one text at most. -/
theorem Spells.unique {other : List Char} (spells : Spells body text)
    (spellsOther : Spells body other) : text = other := by
  have isRead := spells.readString_eq []
  rw [spellsOther.readString_eq []] at isRead
  cases isRead
  rfl

theorem exists_of_prepend {others : List Char} {result : Except Fault (List Char × List Char)}
    (isRead : prepend char result = .ok (text, others)) :
    ∃ later, text = char :: later ∧ result = .ok (later, others) := by
  cases result with
  | error fault => cases isRead
  | ok read =>
      rcases read with ⟨later, left⟩
      cases isRead
      exact ⟨later, rfl, rfl⟩

/-- What a code at the start of a string is read as: one character, or one together with the code
after it, if they are the halves of a surrogate pair. -/
theorem exists_of_readString_code {char1 char2 char3 char4 : Char} {unit : Nat} {others : List Char}
    (isUnit : hexNumber? char1 char2 char3 char4 = some unit) (isBody : IsBody body)
    (isRead : readString
      ('\\' :: 'u' :: char1 :: char2 :: char3 :: char4 :: (body ++ '"' :: rest)) =
        .ok (text, others)) :
    ∃ char left later, text = char :: later ∧ IsBody left ∧ left.length ≤ body.length ∧
      readString (left ++ '"' :: rest) = .ok (later, others) ∧
      ∀ {spelled : List Char}, Spells left spelled →
        Spells ('\\' :: 'u' :: char1 :: char2 :: char3 :: char4 :: body) (char :: spelled) := by
  cases isTrail : isTrailSurrogate unit with
  | true => simp [readString, isUnit, isTrail] at isRead
  | false =>
      cases leads : isLeadSurrogate unit with
      | false =>
          rw [readString_code isUnit leads isTrail] at isRead
          rcases exists_of_prepend isRead with ⟨later, rfl, isLater⟩
          exact ⟨_, body, later, rfl, isBody, Nat.le_refl _, isLater, .code isUnit leads isTrail⟩
      | true =>
          -- Only a second code, which is a trail surrogate, is read after a lead one.
          cases isBody with
          | nil => simp [readString, isUnit, isTrail, leads] at isRead
          | plain _ notBackslash _ _ =>
              simp [readString, isUnit, isTrail, leads, notBackslash] at isRead
          | letter stands _ =>
              simp [readString, isUnit, isTrail, leads, ne_u_of_escaped? stands] at isRead
          | @code char5 char6 char7 char8 trail body isTrailUnit isBody =>
              cases trails : isTrailSurrogate trail with
              | false => simp [readString, isUnit, isTrail, leads, isTrailUnit, trails] at isRead
              | true =>
                  simp only [List.cons_append] at isRead
                  rw [readString_pair isUnit leads isTrailUnit trails] at isRead
                  rcases exists_of_prepend isRead with ⟨later, rfl, isLater⟩
                  refine ⟨_, body, later, rfl, isBody, ?_, isLater,
                    .pair isUnit leads isTrailUnit trails⟩
                  simp only [List.length_cons]
                  omega

/-- What is read for a string is spelled by it, and the string is all that is read. -/
theorem IsBody.spells_of_readString {others : List Char} (isBody : IsBody body)
    (isRead : readString (body ++ '"' :: rest) = .ok (text, others)) :
    Spells body text ∧ others = rest := by
  -- A surrogate pair takes two codes at once, so the induction is on the length.
  induction isLength : body.length using Nat.strongRecOn generalizing body text with
  | ind length ih =>
      subst isLength
      cases isBody with
      | nil =>
          cases isRead
          exact ⟨.nil, rfl⟩
      | @plain char body notQuote notBackslash notControl isBody =>
          rw [List.cons_append, readString_plain notQuote notBackslash notControl] at isRead
          rcases exists_of_prepend isRead with ⟨later, rfl, isLater⟩
          have isShorter : body.length < (char :: body).length := Nat.lt_succ_self _
          rcases ih _ isShorter isBody isLater rfl with ⟨spells, isRest⟩
          exact ⟨.plain notQuote notBackslash notControl spells, isRest⟩
      | @letter letter char body stands isBody =>
          rw [List.cons_append, List.cons_append, readString_letter stands] at isRead
          rcases exists_of_prepend isRead with ⟨later, rfl, isLater⟩
          have isShorter : body.length < ('\\' :: letter :: body).length := by
            simp only [List.length_cons]
            omega
          rcases ih _ isShorter isBody isLater rfl with ⟨spells, isRest⟩
          exact ⟨.letter stands spells, isRest⟩
      | @code char1 char2 char3 char4 unit body isUnit isBody =>
          simp only [List.cons_append] at isRead
          rcases exists_of_readString_code isUnit isBody isRead with
            ⟨char, left, later, rfl, isLeft, notLonger, isLater, spellsAll⟩
          have isShorter : left.length <
              ('\\' :: 'u' :: char1 :: char2 :: char3 :: char4 :: body).length := by
            simp only [List.length_cons]
            omega
          rcases ih _ isShorter isLeft isLater rfl with ⟨spells, isRest⟩
          exact ⟨spellsAll spells, isRest⟩

/-- A string is passed over up to its closing quote. -/
theorem IsBody.skipString_eq (isBody : IsBody body) (rest : List Char) :
    skipString (body ++ '"' :: rest) = .ok rest := by
  induction isBody with
  | nil => rfl
  | plain notQuote notBackslash notControl _ ih =>
      rw [List.cons_append, skipString, if_neg notControl, ih]
      all_goals simp [notQuote, notBackslash]
  | letter stands _ ih => simp [skipString, ne_u_of_escaped? stands, stands, ih]
  | code isUnit _ ih => simp [skipString, isUnit, ih]

/-- What is written for a text spells it. -/
theorem spells_flatMap_escapeChar (text : List Char) :
    Spells (text.flatMap escapeChar) text := by
  induction text with
  | nil => exact .nil
  | cons char text ih =>
      have escapes := escapes_escapeChar char
      rw [List.flatMap_cons]
      generalize escapeChar char = written at escapes ⊢
      cases escapes with
      | letter stands => exact .letter stands ih
      | code control =>
          have spells : Spells _ (Char.ofNat char.toNat :: text) :=
            .code (hexNumber?_of_control control) (by simp [isLeadSurrogate]; omega)
              (by simp [isTrailSurrogate]; omega) ih
          rw [Char.ofNat_toNat] at spells
          exact spells
      | plain notQuote notBackslash notControl =>
          exact .plain notQuote notBackslash notControl ih

/-- A string with its quotes. -/
def quoted (body : List Char) : List Char :=
  '"' :: body ++ ['"']

theorem quoted_append (body rest : List Char) :
    quoted body ++ rest = '"' :: (body ++ '"' :: rest) := by
  simp [quoted]

/-! ## Numbers -/

/-- At least one decimal digit. -/
structure Digits where
  chars : List Char
  areDigits : ∀ char ∈ chars, char.isDigit = true
  nonempty : chars ≠ []

/-- The number that the digits spell. -/
def Digits.number (digits : Digits) : Nat :=
  Nat.ofDigitChars 10 digits.chars 0

/-- The digits of a number. -/
def Digits.ofNumber (number : Nat) : Digits :=
  ⟨Decimal.digits number, fun _ member => isDigit_of_mem_digits member, Nat.toDigits_ne_nil⟩

/-- The exponent of a number. -/
structure Exponent where
  letter : Char
  isLetter : letter = 'e' ∨ letter = 'E'
  sign : List Char
  isSign : sign = [] ∨ sign = ['+'] ∨ sign = ['-']
  digits : Digits

/-- The exponent as it is spelled. -/
def Exponent.chars (exponent : Exponent) : List Char :=
  exponent.letter :: (exponent.sign ++ exponent.digits.chars)

/-- A number as it is spelled. Its first digit is not a superfluous zero. -/
structure Numeral where
  negative : Bool
  whole : Digits
  fraction : Option Digits
  exponent : Option Exponent
  noExtraZero : whole.chars.head? = some '0' → whole.chars = ['0']

namespace Numeral

/-- The exponent as it is spelled, if there is one. -/
def power (numeral : Numeral) : List Char :=
  numeral.exponent.elim [] Exponent.chars

/-- What follows the digits before the decimal point. -/
def scale (numeral : Numeral) : List Char :=
  (numeral.fraction.elim [] fun digits => '.' :: digits.chars) ++ numeral.power

/-- The number as it is spelled. -/
def chars (numeral : Numeral) : List Char :=
  (if numeral.negative then ['-'] else []) ++ (numeral.whole.chars ++ numeral.scale)

end Numeral

namespace Digits

theorem exists_eq_cons (digits : Digits) :
    ∃ first others, digits.chars = first :: others ∧ first.isDigit = true := by
  rcases List.exists_cons_of_ne_nil digits.nonempty with ⟨first, others, isChars⟩
  exact ⟨first, others, isChars, digits.areDigits first (isChars ▸ List.mem_cons_self)⟩

end Digits

namespace Exponent

theorem skipExponent_eq (exponent : Exponent) (ends : EndsDigits rest) :
    skipExponent (exponent.sign ++ (exponent.digits.chars ++ rest)) = .ok rest := by
  have dropped := dropWhile_isDigit exponent.digits.areDigits ends
  rcases exponent.digits.exists_eq_cons with ⟨first, others, isChars, isDigit⟩
  rw [isChars, List.cons_append] at dropped ⊢
  have notPlus : first ≠ '+' := by
    rintro rfl
    cases isDigit
  have notMinus : first ≠ '-' := by
    rintro rfl
    cases isDigit
  rcases exponent.isSign with isSign | isSign | isSign
  · simp [isSign, skipExponent, notPlus, notMinus, isDigit, dropped]
  · simp [isSign, skipExponent, isDigit, dropped]
  · simp [isSign, skipExponent, isDigit, dropped]

end Exponent

namespace Numeral

variable (numeral : Numeral)

theorem endsDigits_power (follows : Follows rest) : EndsDigits (numeral.power ++ rest) := by
  rw [power]
  cases numeral.exponent with
  | none => exact follows.endsDigits
  | some exponent =>
      intro char isHead
      cases isHead
      rcases exponent.isLetter with isLetter | isLetter
      · rw [isLetter]
        rfl
      · rw [isLetter]
        rfl

theorem endsDigits_scale (follows : Follows rest) : EndsDigits (numeral.scale ++ rest) := by
  rw [scale, List.append_assoc]
  cases numeral.fraction with
  | none => exact numeral.endsDigits_power follows
  | some digits =>
      intro char isHead
      cases isHead
      rfl

theorem skipAfterDigits_power (follows : Follows rest) :
    skipAfterDigits (numeral.power ++ rest) = .ok rest := by
  rw [power]
  cases numeral.exponent with
  | none =>
      cases rest with
      | nil => rfl
      | cons char rest =>
          have ends := follows char rfl
          simp only [followers, List.mem_cons, List.not_mem_nil, or_false] at ends
          rcases ends with rfl | rfl | rfl | rfl | rfl | rfl | rfl
          all_goals rfl
  | some exponent =>
      have isSkipped := exponent.skipExponent_eq follows.endsDigits
      rcases exponent.isLetter with isLetter | isLetter
      · simpa [Exponent.chars, isLetter, skipAfterDigits] using isSkipped
      · simpa [Exponent.chars, isLetter, skipAfterDigits] using isSkipped

/-- An exponent is passed over alike with and without a fraction before it. -/
theorem skipFraction_append (digits : Digits) (follows : Follows rest) :
    skipFraction (digits.chars ++ (numeral.power ++ rest)) =
      skipAfterDigits (numeral.power ++ rest) := by
  have dropped := dropWhile_isDigit digits.areDigits (numeral.endsDigits_power follows)
  rcases digits.exists_eq_cons with ⟨first, others, isChars, isDigit⟩
  rw [isChars, List.cons_append] at dropped ⊢
  simp only [skipFraction, isDigit, if_true, dropped]
  rw [power]
  cases numeral.exponent with
  | none =>
      cases rest with
      | nil => rfl
      | cons char rest =>
          have ends := follows char rfl
          simp only [followers, List.mem_cons, List.not_mem_nil, or_false] at ends
          rcases ends with rfl | rfl | rfl | rfl | rfl | rfl | rfl
          all_goals rfl
  | some exponent =>
      rcases exponent.isLetter with isLetter | isLetter
      · simp [Exponent.chars, isLetter, skipAfterDigits]
      · simp [Exponent.chars, isLetter, skipAfterDigits]

/-- What follows the digits before the decimal point is passed over. -/
theorem skipAfterDigits_scale (follows : Follows rest) :
    skipAfterDigits (numeral.scale ++ rest) = .ok rest := by
  have isSkipped := numeral.skipAfterDigits_power follows
  rw [scale, List.append_assoc]
  cases numeral.fraction with
  | none => exact isSkipped
  | some digits =>
      rw [← isSkipped, ← numeral.skipFraction_append digits follows]
      rfl

theorem skipUnsigned_append (ends : EndsDigits rest) :
    skipUnsigned (numeral.whole.chars ++ rest) = skipAfterDigits rest := by
  have dropped := dropWhile_isDigit numeral.whole.areDigits ends
  rcases numeral.whole.exists_eq_cons with ⟨first, others, isChars, isDigit⟩
  by_cases isZero : first = '0'
  · rw [numeral.noExtraZero (by rw [isChars, isZero]; rfl)]
    cases rest with
    | nil => rfl
    | cons char rest => simp [skipUnsigned, ends char rfl]
  · rw [isChars, List.cons_append] at dropped ⊢
    rw [List.dropWhile_cons_of_pos isDigit] at dropped
    rw [skipUnsigned]
    · simp [isDigit, dropped]
    · exact isZero

theorem exists_chars_eq_cons :
    ∃ first others, numeral.chars = first :: others ∧ (first = '-' ∨ first.isDigit = true) := by
  rcases numeral.whole.exists_eq_cons with ⟨first, others, isChars, isDigit⟩
  rw [chars]
  cases numeral.negative with
  | true => exact ⟨'-', _, rfl, Or.inl rfl⟩
  | false => exact ⟨first, _, by rw [isChars]; rfl, Or.inr isDigit⟩

theorem noExtraZero_digits {number : Nat} (isZero : (Decimal.digits number).head? = some '0') :
    Decimal.digits number = ['0'] := by
  by_cases zero : number = 0
  · rw [zero]
    rfl
  · rcases exists_digits_eq_cons zero with ⟨first, others, isDigits, notZero⟩
    rw [isDigits] at isZero
    exact absurd (Option.some.inj isZero) notZero

/-- An integer as it is written. -/
def ofInteger : Int → Numeral
  | .ofNat number => ⟨false, .ofNumber number, none, none, noExtraZero_digits⟩
  | .negSucc number => ⟨true, .ofNumber (number + 1), none, none, noExtraZero_digits⟩

theorem chars_ofInteger (value : Int) : (ofInteger value).chars = Decimal.integer value := by
  cases value with
  | ofNat number => simp [ofInteger, chars, scale, power, Digits.ofNumber, Decimal.integer]
  | negSucc number => simp [ofInteger, chars, scale, power, Digits.ofNumber, Decimal.integer]

theorem chars_append_ne (notFirst : ¬(char = '-' ∨ char.isDigit = true)) :
    numeral.chars ++ rest ≠ char :: inside := by
  rcases numeral.exists_chars_eq_cons with ⟨first, others, isChars, isFirst⟩
  rw [isChars]
  rintro ⟨⟩
  exact notFirst isFirst

/-- Any number is passed over. -/
theorem skipNumber_eq (follows : Follows rest) :
    skipNumber (numeral.chars ++ rest) = .ok rest := by
  have isSkipped : skipUnsigned (numeral.whole.chars ++ (numeral.scale ++ rest)) = .ok rest := by
    rw [numeral.skipUnsigned_append (numeral.endsDigits_scale follows),
      numeral.skipAfterDigits_scale follows]
  rw [chars]
  cases numeral.negative with
  | true => simpa [skipNumber] using isSkipped
  | false =>
      rcases numeral.whole.exists_eq_cons with ⟨first, others, isChars, isDigit⟩
      have notMinus : first ≠ '-' := by
        rintro rfl
        cases isDigit
      rw [isChars] at isSkipped ⊢
      simp only [Bool.false_eq_true, if_false, List.nil_append, List.cons_append,
        List.append_assoc] at isSkipped ⊢
      rw [skipNumber, isSkipped]
      rintro _ ⟨⟩
      exact notMinus rfl

end Numeral

/-! ## Values -/

/-- An element of an array, with the blanks around it. -/
structure Item where
  before : Blanks
  value : List Char
  after : Blanks

/-- The element as it is spelled. -/
def Item.chars (item : Item) : List Char :=
  item.before.chars ++ (item.value ++ item.after.chars)

/-- A member of an object: its key as it is spelled, without the quotes, and its value. -/
structure Member where
  beforeKey : Blanks
  key : List Char
  afterKey : Blanks
  item : Item

namespace Member

/-- The value of a member as it is spelled. -/
def value (member : Member) : List Char :=
  member.item.value

/-- The member as it is spelled. -/
def chars (member : Member) : List Char :=
  member.beforeKey.chars ++
    (quoted member.key ++ (member.afterKey.chars ++ ':' :: member.item.chars))

end Member

/-- Texts with commas between them; the first of them has a comma before it unless it is the first
of all. -/
def separated : (isFirst : Bool) → List (List Char) → List Char
  | _, [] => []
  | isFirst, text :: texts =>
      (if isFirst then [] else [',']) ++ (text ++ separated false texts)

/-- What is left of an array or an object after its elements or members. -/
def closed (last : Blanks) (bracket : Char) (rest : List Char) : List Char :=
  last.chars ++ bracket :: rest

/-- What is left of an array from some element on, and then a rest. -/
def elementsLeft (isFirst : Bool) (items : List Item) (last : Blanks) (rest : List Char) :
    List Char :=
  separated isFirst (items.map Item.chars) ++ closed last ']' rest

/-- What is left of an object from some member on, and then a rest. -/
def membersLeft (isFirst : Bool) (members : List Member) (last : Blanks) (rest : List Char) :
    List Char :=
  separated isFirst (members.map Member.chars) ++ closed last '\x7d' rest

/-- An array, with the blanks before its closing bracket. -/
def arrayText (items : List Item) (last : Blanks) : List Char :=
  '[' :: elementsLeft true items last []

/-- An object, with the blanks before its closing brace. -/
def objectText (members : List Member) (last : Blanks) : List Char :=
  '\x7b' :: membersLeft true members last []

/-- The text is a JSON value. -/
inductive IsValue : List Char → Prop where
  | word {text : List Char}
      (isWord : text = "null".toList ∨ text = "true".toList ∨ text = "false".toList) : IsValue text
  | number (numeral : Numeral) : IsValue numeral.chars
  | string {body : List Char} (isBody : IsBody body) : IsValue (quoted body)
  | array (items : List Item) (last : Blanks) (values : ∀ item ∈ items, IsValue item.value) :
      IsValue (arrayText items last)
  | object (members : List Member) (last : Blanks) (keys : ∀ member ∈ members, IsBody member.key)
      (values : ∀ member ∈ members, IsValue member.value) : IsValue (objectText members last)

/-- The members make up a JSON object. -/
structure IsObject (members : List Member) : Prop where
  keys : ∀ member ∈ members, IsBody member.key
  values : ∀ member ∈ members, IsValue member.value

theorem isObject_cons {member : Member} {members : List Member} :
    IsObject (member :: members) ↔
      (IsBody member.key ∧ IsValue member.value) ∧ IsObject members := by
  constructor
  · rintro ⟨keys, values⟩
    rw [List.forall_mem_cons] at keys values
    exact ⟨⟨keys.1, values.1⟩, keys.2, values.2⟩
  · rintro ⟨⟨isBody, isValue⟩, keys, values⟩
    constructor
    · rw [List.forall_mem_cons]
      exact ⟨isBody, keys⟩
    · rw [List.forall_mem_cons]
      exact ⟨isValue, values⟩

theorem isValue_integer (value : Int) : IsValue (Decimal.integer value) := by
  rw [← Numeral.chars_ofInteger]
  exact .number _

theorem IsObject.isValue {members : List Member} (isObject : IsObject members) (last : Blanks) :
    IsValue (objectText members last) :=
  .object members last isObject.keys isObject.values

/-! ## What is left of arrays and objects -/

theorem skipBlanks_closed (last : Blanks) {bracket : Char} (solid : isBlank bracket = false)
    (rest : List Char) : skipBlanks (closed last bracket rest) = bracket :: rest := by
  rw [closed, skipBlanks_append, skipBlanks_of_not_isBlank solid]

theorem follows_separated (texts : List (List Char)) (last : Blanks) {bracket : Char}
    (ends : bracket ∈ followers) (rest : List Char) :
    Follows (separated false texts ++ closed last bracket rest) := by
  cases texts with
  | nil => exact (follows_cons ends rest).append_blanks last
  | cons text texts => exact follows_cons (by decide) _

section Elements

variable (isFirst : Bool) (item : Item) (items : List Item) (last : Blanks) (rest : List Char)

theorem skipBlanks_elementsLeft_nil :
    skipBlanks (elementsLeft isFirst [] last rest) = ']' :: rest :=
  skipBlanks_closed last rfl rest

theorem elementsLeft_first :
    elementsLeft true (item :: items) last rest =
      item.chars ++ elementsLeft false items last rest := by
  simp [elementsLeft, separated]

theorem elementsLeft_next :
    elementsLeft false (item :: items) last rest =
      ',' :: (item.chars ++ elementsLeft false items last rest) := by
  simp [elementsLeft, separated]

theorem follows_elementsLeft : Follows (elementsLeft false items last rest) :=
  follows_separated _ last (by decide) rest

theorem arrayText_append :
    arrayText items last ++ rest = '[' :: elementsLeft true items last rest := by
  simp [arrayText, elementsLeft, closed]

end Elements

section Members

variable (isFirst : Bool) (member : Member) (members : List Member) (last : Blanks)
  (rest : List Char)

theorem skipBlanks_membersLeft_nil :
    skipBlanks (membersLeft isFirst [] last rest) = '\x7d' :: rest :=
  skipBlanks_closed last rfl rest

theorem membersLeft_first :
    membersLeft true (member :: members) last rest =
      member.chars ++ membersLeft false members last rest := by
  simp [membersLeft, separated]

theorem membersLeft_next :
    membersLeft false (member :: members) last rest =
      ',' :: (member.chars ++ membersLeft false members last rest) := by
  simp [membersLeft, separated]

theorem follows_membersLeft : Follows (membersLeft false members last rest) :=
  follows_separated _ last (by decide) rest

theorem objectText_append :
    objectText members last ++ rest = '\x7b' :: membersLeft true members last rest := by
  simp [objectText, membersLeft, closed]

end Members

theorem Member.chars_append (member : Member) (rest : List Char) :
    member.chars ++ rest = member.beforeKey.chars ++ '"' :: (member.key ++ '"' ::
      (member.afterKey.chars ++ ':' :: (member.item.chars ++ rest))) := by
  simp [chars, quoted]

theorem Member.skipBlanks_append (member : Member) (rest : List Char) :
    skipBlanks (member.chars ++ rest) = '"' :: (member.key ++ '"' ::
      (member.afterKey.chars ++ ':' :: (member.item.chars ++ rest))) := by
  rw [chars_append, Json.skipBlanks_append, skipBlanks_of_not_isBlank rfl]

theorem readColon_append (blanks : Blanks) (rest : List Char) :
    readColon (blanks.chars ++ ':' :: rest) = .ok rest := by
  have opened : skipBlanks (blanks.chars ++ ':' :: rest) = ':' :: rest := by
    rw [skipBlanks_append, skipBlanks_of_not_isBlank rfl]
  simp only [readColon, opened]

namespace IsValue

variable {first : Char}

/-- A value starts with a character that tells it from blanks and from the end of an array. -/
theorem exists_eq_cons (isValue : IsValue text) :
    ∃ first others, text = first :: others ∧ isBlank first = false ∧ first ≠ ']' := by
  cases isValue with
  | word isWord =>
      rcases isWord with rfl | rfl | rfl
      all_goals exact ⟨_, _, rfl, rfl, by decide⟩
  | number numeral =>
      rcases numeral.exists_chars_eq_cons with ⟨first, others, isChars, starts⟩
      refine ⟨first, others, isChars, ?_, ?_⟩
      · rcases starts with rfl | isDigit
        · rfl
        · exact isBlank_eq_false_of_isDigit isDigit
      · rintro rfl
        rcases starts with isSign | isDigit
        · cases isSign
        · cases isDigit
  | string isBody => exact ⟨_, _, rfl, rfl, by decide⟩
  | array items last values => exact ⟨_, _, rfl, rfl, by decide⟩
  | object members last keys values => exact ⟨_, _, rfl, rfl, by decide⟩

theorem skipBlanks_append (isValue : IsValue text) (rest : List Char) :
    skipBlanks (text ++ rest) = text ++ rest := by
  rcases isValue.exists_eq_cons with ⟨first, others, rfl, solid, -⟩
  exact skipBlanks_of_not_isBlank solid _

theorem skipBlanks_item {item : Item} (isValue : IsValue item.value) (rest : List Char) :
    skipBlanks (item.chars ++ rest) = item.value ++ (item.after.chars ++ rest) := by
  rw [Item.chars, List.append_assoc, Json.skipBlanks_append, List.append_assoc,
    isValue.skipBlanks_append]

/-! The first character tells what a value is. -/

theorem of_quote (isValue : IsValue text) (starts : text ++ rest = '"' :: inside) :
    ∃ body, text = quoted body ∧ IsBody body ∧ inside = body ++ '"' :: rest := by
  cases isValue with
  | word isWord => rcases isWord with rfl | rfl | rfl <;> cases starts
  | number numeral => exact absurd starts (numeral.chars_append_ne (by decide))
  | @string body isBody =>
      rw [quoted_append] at starts
      cases starts
      exact ⟨body, rfl, isBody, rfl⟩
  | array items last values => cases starts
  | object members last keys values => cases starts

theorem of_bracket (isValue : IsValue text) (starts : text ++ rest = '[' :: inside) :
    ∃ items last, text = arrayText items last ∧ (∀ item ∈ items, IsValue item.value) ∧
      inside = elementsLeft true items last rest := by
  cases isValue with
  | word isWord => rcases isWord with rfl | rfl | rfl <;> cases starts
  | number numeral => exact absurd starts (numeral.chars_append_ne (by decide))
  | string isBody => cases starts
  | array items last values =>
      rw [arrayText_append] at starts
      cases starts
      exact ⟨items, last, rfl, values, rfl⟩
  | object members last keys values => cases starts

theorem of_brace (isValue : IsValue text) (starts : text ++ rest = '\x7b' :: inside) :
    ∃ members last, text = objectText members last ∧ IsObject members ∧
      inside = membersLeft true members last rest := by
  cases isValue with
  | word isWord => rcases isWord with rfl | rfl | rfl <;> cases starts
  | number numeral => exact absurd starts (numeral.chars_append_ne (by decide))
  | string isBody => cases starts
  | array items last values => cases starts
  | object members last keys values =>
      rw [objectText_append] at starts
      cases starts
      exact ⟨members, last, rfl, ⟨keys, values⟩, rfl⟩

theorem of_sign {char : Char} {others : List Char} (isValue : IsValue (char :: others))
    (isFirst : char = '-' ∨ char.isDigit = true) :
    ∃ numeral, char :: others = Numeral.chars numeral := by
  generalize isText : char :: others = text at isValue
  cases isValue with
  | number numeral => exact ⟨numeral, rfl⟩
  | word isWord =>
      rcases isWord with rfl | rfl | rfl
      all_goals
        cases isText
        exact absurd isFirst (by decide)
  | _ =>
      cases isText
      exact absurd isFirst (by decide)

theorem of_n (isValue : IsValue text) (starts : text ++ rest = 'n' :: inside) :
    text = "null".toList ∧ inside = "ull".toList ++ rest := by
  cases isValue with
  | word isWord =>
      rcases isWord with rfl | rfl | rfl
      all_goals cases starts
      exact ⟨rfl, rfl⟩
  | number numeral => exact absurd starts (numeral.chars_append_ne (by decide))
  | string isBody => cases starts
  | array items last values => cases starts
  | object members last keys values => cases starts

end IsValue

end FontCatalog.Json
