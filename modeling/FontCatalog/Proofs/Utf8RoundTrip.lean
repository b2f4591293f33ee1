import FontCatalog.Text.Utf8

/-!
# UTF-8 loses nothing

A text is what its bytes spell, and bytes that spell a text are the bytes of that text. Both
directions rest on what the decoder does with one byte: a lead byte opens a sequence, a byte
within the bounds moves it on or ends it, and any other byte leaves a malformed piece behind.
-/

namespace FontCatalog.Text.Utf8

variable {byte : UInt8} {rest bytes : Bytes} {value missing lowest highest code : Nat}
  {char : Char} {later : List (Option Char)}

/-! ## The decoder on one byte -/

theorem decodeFrom_none_cons (byte : UInt8) (rest : Bytes) :
    decodeFrom none (byte :: rest) =
      (start byte.toNat).1 ++ decodeFrom (start byte.toNat).2 rest :=
  rfl

theorem decodeFrom_some_nil (sequence : Unfinished) : decodeFrom (some sequence) [] = [none] :=
  rfl

theorem decodeFrom_some_cons (sequence : Unfinished) (byte : UInt8) (rest : Bytes) :
    decodeFrom (some sequence) (byte :: rest) =
      (sequence.advance byte.toNat).1 ++ decodeFrom (sequence.advance byte.toNat).2 rest :=
  rfl

theorem decodeFrom_ascii (ascii : byte.toNat < 0x80) :
    decodeFrom none (byte :: rest) = some (Char.ofNat byte.toNat) :: decodeFrom none rest := by
  simp [decodeFrom_none_cons, start, ascii]

theorem decodeFrom_lead {sequence : Unfinished} (high : ¬byte.toNat < 0x80)
    (opens : Unfinished.ofLead? byte.toNat = some sequence) :
    decodeFrom none (byte :: rest) = decodeFrom (some sequence) rest := by
  simp [decodeFrom_none_cons, start, high, opens]

theorem decodeFrom_last (fits : lowest ≤ byte.toNat ∧ byte.toNat ≤ highest) :
    decodeFrom (some ⟨value, 1, lowest, highest⟩) (byte :: rest) =
      some (Char.ofNat (value * 0x40 + (byte.toNat - 0x80))) :: decodeFrom none rest := by
  simp [decodeFrom_some_cons, Unfinished.advance, fits]

theorem decodeFrom_inner (fits : lowest ≤ byte.toNat ∧ byte.toNat ≤ highest) :
    decodeFrom (some ⟨value, missing + 2, lowest, highest⟩) (byte :: rest) =
      decodeFrom (some ⟨value * 0x40 + (byte.toNat - 0x80), missing + 1, 0x80, 0xBF⟩) rest := by
  simp [decodeFrom_some_cons, Unfinished.advance, fits]

/-- A sequence that is not reported as malformed goes on with a byte within its bounds. -/
theorem exists_fitting_of_decodeFrom {sequence : Unfinished}
    (decoded : decodeFrom (some sequence) bytes = some char :: later) :
    ∃ byte rest, bytes = byte :: rest ∧
      sequence.lowest ≤ byte.toNat ∧ byte.toNat ≤ sequence.highest := by
  cases bytes with
  | nil => cases decoded
  | cons byte rest =>
      by_cases fits : sequence.lowest ≤ byte.toNat ∧ byte.toNat ≤ sequence.highest
      · exact ⟨byte, rest, rfl, fits⟩
      · simp [decodeFrom_some_cons, Unfinished.advance, fits] at decoded

theorem decodeFrom_some_ne_nil (sequence : Unfinished) (bytes : Bytes) :
    decodeFrom (some sequence) bytes ≠ [] := by
  induction bytes generalizing sequence with
  | nil => simp [decodeFrom_some_nil]
  | cons byte rest ih =>
      simp only [decodeFrom_some_cons, Unfinished.advance]
      split
      · split
        · simp
        · simpa using ih _
      · simp

theorem decodeFrom_none_ne_nil (byte : UInt8) (rest : Bytes) :
    decodeFrom none (byte :: rest) ≠ [] := by
  simp only [decodeFrom_none_cons, start]
  split
  · simp
  · split
    · simpa using decodeFrom_some_ne_nil _ rest
    · simp

/-! ## Lead bytes -/

theorem ofLead?_two : ∀ top < 0x20, 2 ≤ top →
    Unfinished.ofLead? (0xC0 + top) = some ⟨top, 1, 0x80, 0xBF⟩ := by
  decide

theorem ofLead?_three : ∀ top < 0x10, Unfinished.ofLead? (0xE0 + top) =
    some ⟨top, 2, if top = 0 then 0xA0 else 0x80, if top = 0xD then 0x9F else 0xBF⟩ := by
  decide

theorem ofLead?_four : ∀ top < 5, Unfinished.ofLead? (0xF0 + top) =
    some ⟨top, 3, if top = 0 then 0x90 else 0x80, if top = 4 then 0x8F else 0xBF⟩ := by
  decide

/-- The lead bytes are those of sequences of two, three and four bytes. -/
theorem exists_top_of_ofLead? {lead : Nat} {sequence : Unfinished}
    (opens : Unfinished.ofLead? lead = some sequence) :
    ∃ top, (lead = 0xC0 + top ∧ top < 0x20 ∧ 2 ≤ top) ∨ (lead = 0xE0 + top ∧ top < 0x10) ∨
      (lead = 0xF0 + top ∧ top < 5) := by
  have bounds : 0xC2 ≤ lead ∧ lead ≤ 0xF4 := by
    simp only [Unfinished.ofLead?] at opens
    grind
  by_cases two : lead < 0xE0
  · exact ⟨lead - 0xC0, Or.inl (by omega)⟩
  · by_cases three : lead < 0xF0
    · exact ⟨lead - 0xE0, Or.inr (Or.inl (by omega))⟩
    · exact ⟨lead - 0xF0, Or.inr (Or.inr (by omega))⟩

/-! ## Codes and their bytes -/

/-- The number is the code of a character. -/
def IsCode (code : Nat) : Prop :=
  code < 0xD800 ∨ (0xDFFF < code ∧ code < 0x110000)

theorem toNat_ofNat_of_isCode (isCode : IsCode code) : (Char.ofNat code).toNat = code := by
  have valid : code.isValidChar := isCode
  have isChar : Char.ofNat code = Char.ofNatAux code valid := dif_pos valid
  rw [isChar]
  rfl

theorem isCode_toNat (char : Char) : IsCode char.toNat :=
  char.valid

theorem encodeChar_one (low : code < 0x80) :
    encodeChar (Char.ofNat code) = [UInt8.ofNat code] := by
  have isCode : IsCode code := Or.inl (by omega)
  simp [encodeChar, toNat_ofNat_of_isCode isCode, low]

theorem encodeChar_two (least : 0x80 ≤ code) (most : code < 0x800) :
    encodeChar (Char.ofNat code) =
      [UInt8.ofNat (0xC0 + code / 0x40), UInt8.ofNat (0x80 + code % 0x40)] := by
  have isCode : IsCode code := Or.inl (by omega)
  have notOne : ¬code < 0x80 := by omega
  simp [encodeChar, toNat_ofNat_of_isCode isCode, notOne, most]

theorem encodeChar_three (isCode : IsCode code) (least : 0x800 ≤ code) (most : code < 0x10000) :
    encodeChar (Char.ofNat code) =
      [UInt8.ofNat (0xE0 + code / 0x1000), UInt8.ofNat (0x80 + code / 0x40 % 0x40),
        UInt8.ofNat (0x80 + code % 0x40)] := by
  have notOne : ¬code < 0x80 := by omega
  have notTwo : ¬code < 0x800 := by omega
  simp [encodeChar, toNat_ofNat_of_isCode isCode, notOne, notTwo, most]

theorem encodeChar_four (isCode : IsCode code) (least : 0x10000 ≤ code) :
    encodeChar (Char.ofNat code) =
      [UInt8.ofNat (0xF0 + code / 0x40000), UInt8.ofNat (0x80 + code / 0x1000 % 0x40),
        UInt8.ofNat (0x80 + code / 0x40 % 0x40), UInt8.ofNat (0x80 + code % 0x40)] := by
  have notOne : ¬code < 0x80 := by omega
  have notTwo : ¬code < 0x800 := by omega
  have notThree : ¬code < 0x10000 := by omega
  simp [encodeChar, toNat_ofNat_of_isCode isCode, notOne, notTwo, notThree]

theorem toNat_byte {number : Nat} (small : number < 0x100) :
    (UInt8.ofNat number).toNat = number :=
  UInt8.toNat_ofNat_of_lt' small

theorem byte_eq (byte : UInt8) {number : Nat} (spelled : number = byte.toNat) :
    UInt8.ofNat number = byte := by
  rw [spelled, UInt8.ofNat_toNat]

/-! ## From characters to bytes and back -/

theorem toNat_tail (number : Nat) :
    (UInt8.ofNat (0x80 + number % 0x40)).toNat = 0x80 + number % 0x40 :=
  toNat_byte (by omega)

theorem decodeFrom_two (notOne : ¬code < 0x80) (two : code < 0x800) (rest : Bytes) :
    decodeFrom none (encodeChar (Char.ofNat code) ++ rest) =
      some (Char.ofNat code) :: decodeFrom none rest := by
  have lead : (UInt8.ofNat (0xC0 + code / 0x40)).toNat = 0xC0 + code / 0x40 :=
    toNat_byte (by omega)
  have opens := ofLead?_two (code / 0x40) (by omega) (by omega)
  rw [encodeChar_two (by omega) two, List.cons_append, List.cons_append, List.nil_append,
    decodeFrom_lead (by omega) (by rw [lead]; exact opens),
    decodeFrom_last (by rw [toNat_tail]; omega), toNat_tail]
  have joined : code / 0x40 * 0x40 + (0x80 + code % 0x40 - 0x80) = code := by omega
  rw [joined]

theorem decodeFrom_three (isCode : IsCode code) (notTwo : ¬code < 0x800) (three : code < 0x10000)
    (rest : Bytes) :
    decodeFrom none (encodeChar (Char.ofNat code) ++ rest) =
      some (Char.ofNat code) :: decodeFrom none rest := by
  have lead : (UInt8.ofNat (0xE0 + code / 0x1000)).toNat = 0xE0 + code / 0x1000 :=
    toNat_byte (by omega)
  have opens := ofLead?_three (code / 0x1000) (by omega)
  have second : (if code / 0x1000 = 0 then 0xA0 else 0x80) ≤ 0x80 + code / 0x40 % 0x40 ∧
      0x80 + code / 0x40 % 0x40 ≤ (if code / 0x1000 = 0xD then 0x9F else 0xBF) := by
    simp only [IsCode] at isCode
    split <;> split <;> omega
  rw [encodeChar_three isCode (by omega) three, List.cons_append, List.cons_append,
    List.cons_append, List.nil_append, decodeFrom_lead (by omega) (by rw [lead]; exact opens),
    decodeFrom_inner (by rw [toNat_tail]; exact second),
    decodeFrom_last (by rw [toNat_tail]; omega), toNat_tail, toNat_tail]
  have joined : (code / 0x1000 * 0x40 + (0x80 + code / 0x40 % 0x40 - 0x80)) * 0x40 +
      (0x80 + code % 0x40 - 0x80) = code := by omega
  rw [joined]

theorem decodeFrom_four (isCode : IsCode code) (notThree : ¬code < 0x10000) (rest : Bytes) :
    decodeFrom none (encodeChar (Char.ofNat code) ++ rest) =
      some (Char.ofNat code) :: decodeFrom none rest := by
  have most : code < 0x110000 := by
    simp only [IsCode] at isCode
    omega
  have lead : (UInt8.ofNat (0xF0 + code / 0x40000)).toNat = 0xF0 + code / 0x40000 :=
    toNat_byte (by omega)
  have opens := ofLead?_four (code / 0x40000) (by omega)
  have second : (if code / 0x40000 = 0 then 0x90 else 0x80) ≤ 0x80 + code / 0x1000 % 0x40 ∧
      0x80 + code / 0x1000 % 0x40 ≤ (if code / 0x40000 = 4 then 0x8F else 0xBF) := by
    split <;> split <;> omega
  rw [encodeChar_four isCode (by omega), List.cons_append, List.cons_append,
    List.cons_append, List.cons_append, List.nil_append,
    decodeFrom_lead (by omega) (by rw [lead]; exact opens),
    decodeFrom_inner (by rw [toNat_tail]; exact second),
    decodeFrom_inner (by rw [toNat_tail]; omega),
    decodeFrom_last (by rw [toNat_tail]; omega), toNat_tail, toNat_tail, toNat_tail]
  have joined : ((code / 0x40000 * 0x40 + (0x80 + code / 0x1000 % 0x40 - 0x80)) * 0x40 +
      (0x80 + code / 0x40 % 0x40 - 0x80)) * 0x40 + (0x80 + code % 0x40 - 0x80) = code := by
    omega
  rw [joined]

/-- The decoder reads a character off the front of its bytes. -/
theorem decodeFrom_encodeChar (char : Char) (rest : Bytes) :
    decodeFrom none (encodeChar char ++ rest) = some char :: decodeFrom none rest := by
  have isCode := isCode_toNat char
  have restored := char.ofNat_toNat
  generalize char.toNat = code at isCode restored
  subst restored
  by_cases one : code < 0x80
  · have byte_toNat : (UInt8.ofNat code).toNat = code := toNat_byte (by omega)
    rw [encodeChar_one one, List.singleton_append, decodeFrom_ascii (by omega), byte_toNat]
  · by_cases two : code < 0x800
    · exact decodeFrom_two one two rest
    · by_cases three : code < 0x10000
      · exact decodeFrom_three isCode two three rest
      · exact decodeFrom_four isCode three rest

theorem exists_last_of_decodeFrom
    (decoded : decodeFrom (some ⟨value, 1, lowest, highest⟩) bytes = some char :: later) :
    ∃ byte rest, bytes = byte :: rest ∧ lowest ≤ byte.toNat ∧ byte.toNat ≤ highest ∧
      char = Char.ofNat (value * 0x40 + (byte.toNat - 0x80)) ∧ decodeFrom none rest = later := by
  rcases exists_fitting_of_decodeFrom decoded with ⟨byte, rest, rfl, fits⟩
  rw [decodeFrom_last fits] at decoded
  rcases List.cons.inj decoded with ⟨isChar, isLater⟩
  exact ⟨byte, rest, rfl, fits.1, fits.2, (Option.some.inj isChar).symm, isLater⟩

theorem exists_inner_of_decodeFrom
    (decoded : decodeFrom (some ⟨value, missing + 2, lowest, highest⟩) bytes =
      some char :: later) :
    ∃ byte rest, bytes = byte :: rest ∧ lowest ≤ byte.toNat ∧ byte.toNat ≤ highest ∧
      decodeFrom (some ⟨value * 0x40 + (byte.toNat - 0x80), missing + 1, 0x80, 0xBF⟩) rest =
        some char :: later := by
  rcases exists_fitting_of_decodeFrom decoded with ⟨byte, rest, rfl, fits⟩
  rw [decodeFrom_inner fits] at decoded
  exact ⟨byte, rest, rfl, fits.1, fits.2, decoded⟩

theorem exists_rest_two {first : UInt8} {top : Nat} (isLead : first.toNat = 0xC0 + top)
    (most : top < 0x20) (least : 2 ≤ top)
    (decoded : decodeFrom (some ⟨top, 1, 0x80, 0xBF⟩) bytes = some char :: later) :
    ∃ rest, first :: bytes = encodeChar char ++ rest ∧ decodeFrom none rest = later := by
  rcases exists_last_of_decodeFrom decoded with
    ⟨second, rest, rfl, secondLow, secondHigh, isChar, isLater⟩
  refine ⟨rest, ?_, isLater⟩
  rw [isChar, encodeChar_two (by omega) (by omega), byte_eq first (by omega),
    byte_eq second (by omega)]
  rfl

theorem exists_rest_three {first : UInt8} {top : Nat} (isLead : first.toNat = 0xE0 + top)
    (most : top < 0x10)
    (decoded : decodeFrom (some ⟨top, 2, if top = 0 then 0xA0 else 0x80,
      if top = 0xD then 0x9F else 0xBF⟩) bytes = some char :: later) :
    ∃ rest, first :: bytes = encodeChar char ++ rest ∧ decodeFrom none rest = later := by
  rcases exists_inner_of_decodeFrom decoded with
    ⟨second, bytes, rfl, secondLow, secondHigh, decoded⟩
  rcases exists_last_of_decodeFrom decoded with
    ⟨third, rest, rfl, thirdLow, thirdHigh, isChar, isLater⟩
  refine ⟨rest, ?_, isLater⟩
  have isCode : IsCode ((top * 0x40 + (second.toNat - 0x80)) * 0x40 +
      (third.toNat - 0x80)) := by
    simp only [IsCode]
    split at secondHigh <;> omega
  have bounds : 0x80 ≤ second.toNat ∧ (top = 0 → 0xA0 ≤ second.toNat) ∧
      second.toNat ≤ 0xBF := by
    split at secondLow <;> split at secondHigh <;> omega
  rw [isChar, encodeChar_three isCode (by omega) (by omega),
    byte_eq first (by omega), byte_eq second (by omega), byte_eq third (by omega)]
  rfl

theorem exists_rest_four {first : UInt8} {top : Nat} (isLead : first.toNat = 0xF0 + top)
    (most : top < 5)
    (decoded : decodeFrom (some ⟨top, 3, if top = 0 then 0x90 else 0x80,
      if top = 4 then 0x8F else 0xBF⟩) bytes = some char :: later) :
    ∃ rest, first :: bytes = encodeChar char ++ rest ∧ decodeFrom none rest = later := by
  rcases exists_inner_of_decodeFrom decoded with
    ⟨second, bytes, rfl, secondLow, secondHigh, decoded⟩
  rcases exists_inner_of_decodeFrom decoded with
    ⟨third, bytes, rfl, thirdLow, thirdHigh, decoded⟩
  rcases exists_last_of_decodeFrom decoded with
    ⟨fourth, rest, rfl, fourthLow, fourthHigh, isChar, isLater⟩
  refine ⟨rest, ?_, isLater⟩
  have bounds : 0x80 ≤ second.toNat ∧ (top = 0 → 0x90 ≤ second.toNat) ∧
      second.toNat ≤ 0xBF ∧ (top = 4 → second.toNat ≤ 0x8F) := by
    split at secondLow <;> split at secondHigh <;> omega
  have isCode : IsCode (((top * 0x40 + (second.toNat - 0x80)) * 0x40 +
      (third.toNat - 0x80)) * 0x40 + (fourth.toNat - 0x80)) := by
    simp only [IsCode]
    omega
  rw [isChar, encodeChar_four isCode (by omega), byte_eq first (by omega),
    byte_eq second (by omega), byte_eq third (by omega), byte_eq fourth (by omega)]
  rfl

/-- Bytes from which the decoder gets a character start with the bytes of that character. -/
theorem exists_rest_of_decodeFrom (decoded : decodeFrom none bytes = some char :: later) :
    ∃ rest, bytes = encodeChar char ++ rest ∧ decodeFrom none rest = later := by
  cases bytes with
  | nil => cases decoded
  | cons first bytes =>
      by_cases ascii : first.toNat < 0x80
      · rw [decodeFrom_ascii ascii] at decoded
        cases decoded
        exact ⟨bytes, by rw [encodeChar_one ascii, UInt8.ofNat_toNat, List.singleton_append], rfl⟩
      cases opens : Unfinished.ofLead? first.toNat with
      | none => simp [decodeFrom, start, ascii, opens] at decoded
      | some sequence =>
          rw [decodeFrom_lead ascii opens] at decoded
          rcases exists_top_of_ofLead? opens with
            ⟨top, ⟨isLead, most, least⟩ | ⟨isLead, most⟩ | ⟨isLead, most⟩⟩
          · rw [isLead, ofLead?_two top most least, Option.some.injEq] at opens
            subst opens
            exact exists_rest_two isLead most least decoded
          · rw [isLead, ofLead?_three top most, Option.some.injEq] at opens
            subst opens
            exact exists_rest_three isLead most decoded
          · rw [isLead, ofLead?_four top most, Option.some.injEq] at opens
            subst opens
            exact exists_rest_four isLead most decoded

/-! ## From texts to bytes and back -/

theorem decode?_eq_some_iff {text : List Char} :
    decode? bytes = some text ↔ decode bytes = text.map some := by
  simp only [decode?]
  generalize decode bytes = pieces
  induction pieces generalizing text with
  | nil => cases text <;> simp
  | cons piece pieces ih =>
      cases piece with
      | none => cases text <;> simp
      | some char =>
          simp only [List.mapM_cons, id, Option.bind_eq_bind, Option.bind_some,
            Option.bind_eq_some_iff, ih]
          constructor
          · rintro ⟨rest, rfl, isText⟩
            cases isText
            rfl
          · intro spelled
            cases text with
            | nil => cases spelled
            | cons first text =>
                cases spelled
                exact ⟨text, rfl, rfl⟩

theorem encode_append (left right : List Char) :
    encode (left ++ right) = encode left ++ encode right := by
  simp [encode]

/-- The bytes of a text spell it. -/
theorem decode?_encode (text : List Char) : decode? (encode text) = some text := by
  rw [decode?_eq_some_iff, decode]
  induction text with
  | nil => rfl
  | cons char text ih =>
      rw [encode, List.flatMap_cons, decodeFrom_encodeChar, List.map_cons]
      exact congrArg _ ih

/-- Bytes that spell a text are the bytes of that text. -/
theorem encode_eq_of_decode? {text : List Char} (decoded : decode? bytes = some text) :
    encode text = bytes := by
  rw [decode?_eq_some_iff, decode] at decoded
  induction text generalizing bytes with
  | nil =>
      cases bytes with
      | nil => rfl
      | cons byte rest => exact (decodeFrom_none_ne_nil byte rest decoded).elim
  | cons char text ih =>
      rcases exists_rest_of_decodeFrom decoded with ⟨rest, rfl, isRest⟩
      rw [encode, List.flatMap_cons]
      exact congrArg _ (ih isRest)

/-! ## Texts at the start of bytes -/

/-- A text without U+FFFD starts what bytes spell, malformed pieces shown, exactly when its bytes
start them. -/
theorem prefix_decodeLossy_iff {text : List Char} (shown : '\uFFFD' ∉ text) :
    text <+: decodeLossy bytes ↔ encode text <+: bytes := by
  induction text generalizing bytes with
  | nil => simp [encode]
  | cons char text ih =>
      rw [List.mem_cons, not_or] at shown
      constructor
      · rintro ⟨later, isText⟩
        simp only [decodeLossy, decode, List.cons_append] at isText
        rcases List.map_eq_cons_iff.mp isText.symm with ⟨piece, pieces, decoded, isChar, isLater⟩
        cases piece with
        | none => exact absurd isChar shown.1
        | some found =>
            cases isChar
            rcases exists_rest_of_decodeFrom decoded with ⟨rest, rfl, rfl⟩
            rw [Option.getD_some, encode, List.flatMap_cons, List.prefix_append_right_inj]
            exact (ih shown.2).mp ⟨later, isLater.symm⟩
      · rintro ⟨rest, rfl⟩
        rw [encode, List.flatMap_cons, List.append_assoc, decodeLossy, decode,
          decodeFrom_encodeChar, List.map_cons, Option.getD_some, List.cons_prefix_cons]
        exact ⟨rfl, (ih shown.2).mpr ⟨rest, rfl⟩⟩
end FontCatalog.Text.Utf8
