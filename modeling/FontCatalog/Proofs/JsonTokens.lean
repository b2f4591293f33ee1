import FontCatalog.Json.Document
import FontCatalog.Json.Reader

/-!
# Tokens

How characters are written inside a string, which characters may follow a value, and how digits are
taken in. A number ends where the text after it does not go on with a digit, a point or an exponent;
blanks, commas and closing brackets do not.
-/

namespace FontCatalog.Json

variable {text rest : List Char} {char : Char}

/-! ## Blanks -/

theorem skipBlanks_of_not_isBlank (solid : isBlank char = false) (rest : List Char) :
    skipBlanks (char :: rest) = char :: rest := by
  simp [skipBlanks, solid]

theorem readWhole_of_read {α : Type} {reader : Reader α} {value : α}
    (isRead : reader text = .ok (value, rest)) (blank : skipBlanks rest = []) :
    readWhole reader text = .ok value := by
  simp [readWhole, isRead, blank, bind, Except.bind]

/-! ## Strings -/

/-- The three ways in which a character is written inside a string. -/
inductive Escapes (char : Char) : List Char → Prop where
  | letter {letter : Char} (stands : escaped? letter = some char) : Escapes char ['\\', letter]
  | code (control : char.toNat < 0x20) :
      Escapes char
        ['\\', 'u', '0', '0', hexDigit (char.toNat / 16), hexDigit (char.toNat % 16)]
  | plain (notQuote : char ≠ '"') (notBackslash : char ≠ '\\')
      (notControl : ¬char.toNat < 0x20) : Escapes char [char]

theorem escapes_escapeChar (char : Char) : Escapes char (escapeChar char) := by
  simp only [escapeChar]
  repeat' split
  all_goals first
    | subst char
      exact .letter rfl
    | rename_i control
      exact .code control
    | rename_i notQuote notBackslash _ _ _ _ _ notControl
      exact .plain notQuote notBackslash notControl

theorem hexDigit?_hexDigit : ∀ value < 16, hexDigit? (hexDigit value) = some value := by
  decide

theorem hexNumber?_of_control {code : Nat} (control : code < 0x20) :
    hexNumber? '0' '0' (hexDigit (code / 16)) (hexDigit (code % 16)) = some code := by
  have high := hexDigit?_hexDigit (code / 16) (by omega)
  have low := hexDigit?_hexDigit (code % 16) (by omega)
  have zero : hexDigit? '0' = some 0 := rfl
  have joined : ((0 * 16 + 0) * 16 + code / 16) * 16 + code % 16 = code := by omega
  simp only [hexNumber?, zero, high, low, Option.bind_eq_bind, Option.bind_some, joined]
  rfl

theorem hexDigit_ne_lineFeed : ∀ value < 16, '\n' ≠ hexDigit value := by
  decide

theorem lineFeed_not_mem_escapeChar (char : Char) : '\n' ∉ escapeChar char := by
  have escapes := escapes_escapeChar char
  generalize escapeChar char = written at escapes ⊢
  cases escapes with
  | @letter letter stands =>
      have notLineFeed : '\n' ≠ letter := by
        rintro rfl
        cases stands
      simp [notLineFeed]
  | code control =>
      have high := hexDigit_ne_lineFeed (char.toNat / 16) (by omega)
      have low := hexDigit_ne_lineFeed (char.toNat % 16) (by omega)
      simp [high, low]
  | plain notQuote notBackslash notControl =>
      have notLineFeed : '\n' ≠ char := by
        rintro rfl
        exact notControl (by decide)
      simp [notLineFeed]

/-- No string breaks a line. -/
theorem lineFeed_not_mem_quote (text : List Char) : '\n' ∉ quote text := by
  simp [quote, lineFeed_not_mem_escapeChar]

/-! ## Numbers -/

/-- The characters that may stand right after a value. None of them goes on with a number. -/
def followers : List Char :=
  [' ', '\t', '\n', '\r', ',', ']', '\x7d']

/-- The text can follow a value. -/
def Follows (rest : List Char) : Prop :=
  ∀ char ∈ rest.head?, char ∈ followers

theorem follows_nil : Follows [] := by
  intro char member
  cases member

theorem follows_cons (ends : char ∈ followers) (rest : List Char) :
    Follows (char :: rest) := by
  intro other member
  cases member
  exact ends

theorem isDigit_of_mem_digits {number : Nat} (member : char ∈ Decimal.digits number) :
    char.isDigit = true :=
  Nat.isDigit_of_mem_toDigits (by decide) (by decide) member

theorem isBlank_eq_false_of_isDigit (isDigit : char.isDigit = true) : isBlank char = false := by
  cases blank : isBlank char with
  | false => rfl
  | true =>
      simp only [isBlank, Bool.or_eq_true, decide_eq_true_eq] at blank
      rcases blank with ((rfl | rfl) | rfl) | rfl
      all_goals cases isDigit

theorem digitChar_ne_zero : ∀ digit < 10, digit ≠ 0 → Nat.digitChar digit ≠ '0' := by
  decide

/-- The spelling of a positive number does not start with a zero. -/
theorem exists_digits_eq_cons {number : Nat} (positive : number ≠ 0) :
    ∃ first others, Decimal.digits number = first :: others ∧ first ≠ '0' := by
  induction number using Nat.strongRecOn with
  | ind number ih =>
      by_cases small : number < 10
      · exact ⟨number.digitChar, [], Nat.toDigits_of_lt_base small,
          digitChar_ne_zero number small positive⟩
      · rcases ih (number / 10) (by omega) (by omega) with ⟨first, others, isQuotient, notZero⟩
        refine ⟨first, others ++ [(number % 10).digitChar], ?_, notZero⟩
        rw [Decimal.digits, Nat.toDigits_of_base_le (by decide) (by omega)]
        rw [Decimal.digits] at isQuotient
        rw [isQuotient, List.cons_append]

/-- Digits fit into a significand if their number does. -/
theorem absorb_eq {digits : List Char} {significand : Nat}
    (fits : Nat.ofDigitChars 10 digits significand ≤ significandLimit) :
    absorb significand digits = (Nat.ofDigitChars 10 digits significand, []) := by
  induction digits generalizing significand with
  | nil => simp [absorb]
  | cons digit digits ih =>
      rw [Nat.ofDigitChars_cons, Nat.mul_comm] at fits ⊢
      have next_le : significand * 10 + digitValue digit ≤ significandLimit := by
        rw [Nat.ofDigitChars_eq_ofDigitChars_zero] at fits
        have grows := Nat.le_mul_of_pos_left (significand * 10 + (digit.toNat - '0'.toNat))
          (Nat.pow_pos (n := digits.length) (show 0 < 10 by decide))
        simp only [digitValue]
        omega
      rw [absorb]
      simp only [Nat.not_lt.mpr next_le, if_false]
      exact ih fits

theorem readAfterDigits_of_follows (negative : Bool) (significand left : Nat)
    (follows : Follows rest) :
    readAfterDigits negative significand left rest =
      if left = 0 then .ok (integerNumber negative significand, rest)
      else realOfParts negative significand left >>= fun value => .ok (.real value, rest) := by
  cases rest with
  | nil => rfl
  | cons char rest =>
      have ends := follows char rfl
      simp only [followers, List.mem_cons, List.not_mem_nil, or_false] at ends
      rcases ends with rfl | rfl | rfl | rfl | rfl | rfl | rfl
      all_goals rfl

/-- The text does not go on with a digit. -/
def EndsDigits (rest : List Char) : Prop :=
  ∀ char ∈ rest.head?, char.isDigit = false

theorem Follows.endsDigits (follows : Follows rest) : EndsDigits rest := by
  intro char isFirst
  have ends := follows char isFirst
  simp only [followers, List.mem_cons, List.not_mem_nil, or_false] at ends
  rcases ends with rfl | rfl | rfl | rfl | rfl | rfl | rfl
  all_goals rfl

theorem takeWhile_isDigit {digits : List Char} (areDigits : ∀ char ∈ digits, char.isDigit = true)
    (ends : EndsDigits rest) : (digits ++ rest).takeWhile Char.isDigit = digits := by
  rw [List.takeWhile_append_of_pos areDigits]
  cases rest with
  | nil => simp
  | cons char rest => simp [ends char rfl]

theorem dropWhile_isDigit {digits : List Char} (areDigits : ∀ char ∈ digits, char.isDigit = true)
    (ends : EndsDigits rest) : (digits ++ rest).dropWhile Char.isDigit = rest := by
  rw [List.dropWhile_append_of_pos areDigits]
  cases rest with
  | nil => rfl
  | cons char rest => simp [ends char rfl]

theorem lineFeed_not_mem_integer (value : Int) : '\n' ∉ Decimal.integer value := by
  have noDigit : ∀ number, '\n' ∉ Decimal.digits number := by
    intro number member
    cases isDigit_of_mem_digits member
  cases value with
  | ofNat number => exact noDigit number
  | negSucc number => simp [Decimal.integer, noDigit]

/-! ## Elements -/

theorem nextElement_true {first : Char} {others : List Char}
    (opened : skipBlanks text = first :: others) (notEnd : first ≠ ']') :
    nextElement true text = .ok (true, first :: others) := by
  simp only [nextElement, opened, if_true]

theorem nextElement_false {first : Char} {others : List Char}
    (comma : skipBlanks text = ',' :: rest) (opened : skipBlanks rest = first :: others)
    (notEnd : first ≠ ']') : nextElement false text = .ok (true, first :: others) := by
  simp [nextElement, comma, opened, notEnd]

end FontCatalog.Json
