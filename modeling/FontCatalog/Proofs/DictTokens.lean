import FontCatalog.Cff.TopDict
import FontCatalog.Proofs.Numerals
import Mathlib.Data.List.Basic

/-!
# Tokens of a DICT

Whole tokens are read alike whatever follows them, so that the tokens of a DICT are those of its
parts, one after the other, as long as no token of the first part runs into its end. An integer
has up to five spellings, in one, two, three or five bytes, and is read from each of them.
-/

namespace FontCatalog.Cff

/-! ## What follows a token -/

theorem Real.readFrom?_append {bytes : Bytes} {parts : RealParts} {real : Real} {size : Nat}
    (isRead : Real.readFrom? parts bytes = some (real, size)) (more : Bytes) :
    size ≤ bytes.length ∧ Real.readFrom? parts (bytes ++ more) = some (real, size) := by
  induction bytes generalizing parts size with
  | nil => cases isRead
  | cons byte rest ih =>
      rw [Real.readFrom?] at isRead
      rw [List.cons_append, Real.readFrom?]
      cases high : parts.step (byte.toNat / 16) with
      | finished found =>
          rw [high] at isRead
          cases isRead
          exact ⟨by simp, rfl⟩
      | continued next =>
          rw [high] at isRead
          simp only at isRead ⊢
          cases low : next.step (byte.toNat % 16) with
          | finished found =>
              rw [low] at isRead
              cases isRead
              exact ⟨by simp, rfl⟩
          | continued last =>
              rw [low] at isRead
              rcases Option.map_eq_some_iff.mp isRead with ⟨⟨found, others⟩, isRest, isResult⟩
              cases isResult
              rcases ih isRest with ⟨inside, isSame⟩
              refine ⟨Nat.succ_le_succ inside, ?_⟩
              simp [isSame]

namespace Token

theorem list_cons (first : UInt8) (rest : Bytes) :
    list (first :: rest) = (read first rest).1 :: list (rest.drop (read first rest).2) := by
  rw [list]

/-- A token that is all there is read alike whatever follows. -/
theorem read_append {first : UInt8} {rest : Bytes} (whole : (read first rest).1 ≠ truncated)
    (more : Bytes) :
    (read first rest).2 ≤ rest.length ∧ read first (rest ++ more) = read first rest := by
  -- The first byte decides how many bytes the token takes; a real operand finds its end itself.
  by_cases isEscape : first.toNat = 12
  · cases rest with
    | nil => simp [read, isEscape] at whole
    | cons second rest => simp [read, isEscape]
  by_cases isShort : first.toNat = 28
  · match rest with
    | [] | [_] => simp [read, isShort] at whole
    | _ :: _ :: _ => simp [read, isShort]
  by_cases isLong : first.toNat = 29
  · match rest with
    | [] | [_] | [_, _] | [_, _, _] => simp [read, isLong] at whole
    | _ :: _ :: _ :: _ :: _ => simp [read, isLong]
  by_cases isReal : first.toNat = 30
  · cases isRead : Real.read? rest with
    | none => simp [read, isReal, isRead] at whole
    | some found =>
        rcases Real.readFrom?_append isRead more with ⟨inside, isSame⟩
        have isRead' : Real.read? (rest ++ more) = some found := isSame
        simp [read, isReal, isRead, isRead', inside]
  by_cases isOne : 32 ≤ first.toNat ∧ first.toNat ≤ 246
  · simp [read, isEscape, isShort, isLong, isReal, isOne]
  by_cases isTwo : 247 ≤ first.toNat ∧ first.toNat ≤ 254
  · cases rest with
    | nil => simp [read, isEscape, isShort, isLong, isReal, isOne, isTwo] at whole
    | cons second rest => simp [read, isEscape, isShort, isLong, isReal, isOne, isTwo]
  · simp [read, isEscape, isShort, isLong, isReal, isOne, isTwo]

theorem list_append {bytes : Bytes} (whole : truncated ∉ list bytes) (more : Bytes) :
    list (bytes ++ more) = list bytes ++ list more := by
  induction length_eq : bytes.length using Nat.strongRecOn generalizing bytes with
  | ind length ih =>
      cases bytes with
      | nil => simp [list]
      | cons first rest =>
          rw [list_cons, List.mem_cons, not_or] at whole
          rcases read_append (Ne.symm whole.1) more with ⟨inside, isSame⟩
          have shorter : (rest.drop (read first rest).2).length < length := by
            simp only [List.length_drop, ← length_eq, List.length_cons]
            omega
          rw [List.cons_append, list_cons, list_cons, isSame, List.drop_append_of_le_length inside,
            ih _ shorter whole.2 rfl, List.cons_append]

end Token

/-! ## Integers -/

/-- The spellings of an integer in a DICT: one byte, two bytes for integers of either sign that are
larger, and two's complement in two or in four bytes after a mark. -/
inductive SpellsInteger (value : Int) : Bytes → Prop
  | oneByte (least : -107 ≤ value) (most : value ≤ 107) :
      SpellsInteger value [UInt8.ofNat (value + 139).toNat]
  | positive (least : 108 ≤ value) (most : value ≤ 1131) :
      SpellsInteger value
        [UInt8.ofNat (247 + (value - 108) / 256).toNat, UInt8.ofNat ((value - 108) % 256).toNat]
  | negative (least : -1131 ≤ value) (most : value ≤ -108) :
      SpellsInteger value
        [UInt8.ofNat (251 + (-value - 108) / 256).toNat, UInt8.ofNat ((-value - 108) % 256).toNat]
  | short (least : -0x8000 ≤ value) (most : value ≤ 0x7FFF) :
      SpellsInteger value (28 :: Bytes.bigEndianOf 2 (value % 0x10000).toNat)
  | long (least : -0x80000000 ≤ value) (most : value ≤ 0x7FFFFFFF) :
      SpellsInteger value (29 :: Bytes.bigEndianOf 4 (value % 0x100000000).toNat)

theorem toInt16_ofNat {value : Int} (least : -0x8000 ≤ value) (most : value ≤ 0x7FFF) :
    (UInt16.ofNat (value % 0x10000).toNat).toInt16.toInt32 = Int32.ofInt value := by
  have isInt16 : (UInt16.ofNat (value % 0x10000).toNat).toInt16 = Int16.ofInt value := by
    rw [← Int16.toBitVec_inj]
    simp only [UInt16.toBitVec_toInt16, Int16.toBitVec_ofInt, UInt16.toBitVec_ofNat']
    apply BitVec.eq_of_toNat_eq
    simp
    omega
  rw [isInt16, ← Int32.toInt_inj, Int16.toInt_toInt32, Int16.toInt_ofInt_of_le least (by omega),
    Int32.toInt_ofInt_of_le (by omega) (by omega)]

theorem toInt32_ofNat (value : Int) :
    (UInt32.ofNat (value % 0x100000000).toNat).toInt32 = Int32.ofInt value := by
  rw [← Int32.toBitVec_inj]
  simp only [UInt32.toBitVec_toInt32, Int32.toBitVec_ofInt, UInt32.toBitVec_ofNat']
  apply BitVec.eq_of_toNat_eq
  simp
  omega

namespace Token

theorem read_oneByte {first : UInt8} (least : 32 ≤ first.toNat) (most : first.toNat ≤ 246)
    (rest : Bytes) : read first rest = (integer (Int32.ofInt ((first.toNat : Int) - 139)), 0) := by
  simp only [read]
  rw [if_neg (by omega), if_neg (by omega), if_neg (by omega), if_neg (by omega),
    if_pos ⟨least, most⟩]

theorem read_twoBytes {first : UInt8} (least : 247 ≤ first.toNat) (most : first.toNat ≤ 254)
    (second : UInt8) (rest : Bytes) :
    read first (second :: rest) =
      (integer (Int32.ofInt (if first.toNat ≤ 250 then
          ((first.toNat : Int) - 247) * 256 + second.toNat + 108
        else -((first.toNat : Int) - 251) * 256 - second.toNat - 108)), 1) := by
  simp only [read]
  rw [if_neg (by omega), if_neg (by omega), if_neg (by omega), if_neg (by omega),
    if_neg (by omega), if_pos ⟨least, most⟩]

/-- An integer is read from each of its spellings. -/
theorem list_integer {value : Int} {bytes : Bytes} (spells : SpellsInteger value bytes)
    (rest : Bytes) : list (bytes ++ rest) = integer (Int32.ofInt value) :: list rest := by
  cases spells with
  | oneByte least most =>
      have isByte : (UInt8.ofNat (value + 139).toNat).toNat = (value + 139).toNat := by
        rw [UInt8.toNat_ofNat']
        omega
      have isValue : (((value + 139).toNat : Nat) : Int) - 139 = value := by omega
      rw [List.singleton_append, list_cons, read_oneByte (by omega) (by omega), isByte, isValue,
        List.drop_zero]
  | positive least most =>
      have isFirst : (UInt8.ofNat (247 + (value - 108) / 256).toNat).toNat =
          (247 + (value - 108) / 256).toNat := by
        rw [UInt8.toNat_ofNat']
        omega
      have isSecond : (UInt8.ofNat ((value - 108) % 256).toNat).toNat =
          ((value - 108) % 256).toNat := by
        rw [UInt8.toNat_ofNat']
        omega
      have isValue : (((247 + (value - 108) / 256).toNat : Int) - 247) * 256 +
          ((value - 108) % 256).toNat + 108 = value := by omega
      rw [List.cons_append, List.singleton_append, list_cons,
        read_twoBytes (by omega) (by omega), isFirst, isSecond, if_pos (by omega), isValue,
        List.drop_one, List.tail_cons]
  | negative least most =>
      have isFirst : (UInt8.ofNat (251 + (-value - 108) / 256).toNat).toNat =
          (251 + (-value - 108) / 256).toNat := by
        rw [UInt8.toNat_ofNat']
        omega
      have isSecond : (UInt8.ofNat ((-value - 108) % 256).toNat).toNat =
          ((-value - 108) % 256).toNat := by
        rw [UInt8.toNat_ofNat']
        omega
      have isValue : -(((251 + (-value - 108) / 256).toNat : Int) - 251) * 256 -
          ((-value - 108) % 256).toNat - 108 = value := by omega
      rw [List.cons_append, List.singleton_append, list_cons,
        read_twoBytes (by omega) (by omega), isFirst, isSecond, if_neg (by omega), isValue,
        List.drop_one, List.tail_cons]
  | short least most =>
      have fits : (value % 0x10000).toNat < 256 ^ 2 := by omega
      rcases List.length_eq_two.mp (Bytes.length_bigEndianOf 2 (value % 0x10000).toNat) with
        ⟨high, low, isBytes⟩
      have isNumber : high.toNat * 256 + low.toNat = (value % 0x10000).toNat := by
        rw [← Bytes.bigEndian_bigEndianOf fits, isBytes]
        simp [Bytes.bigEndian]
      have isRead : read 28 (high :: low :: rest) = (integer (signed16 high low), 2) := rfl
      rw [isBytes, List.cons_append, List.cons_append, List.singleton_append, list_cons, isRead,
        signed16, isNumber, toInt16_ofNat least most]
      rfl
  | long least most =>
      have fits : (value % 0x100000000).toNat < 256 ^ 4 := by omega
      have isNumber := Bytes.bigEndian_bigEndianOf fits
      rcases List.length_eq_four.mp (Bytes.length_bigEndianOf 4 (value % 0x100000000).toNat) with
        ⟨byte0, byte1, byte2, byte3, isBytes⟩
      have isRead : read 29 (byte0 :: byte1 :: byte2 :: byte3 :: rest) =
          (integer (signed32 [byte0, byte1, byte2, byte3]), 4) := rfl
      rw [isBytes] at isNumber ⊢
      simp only [List.cons_append, List.nil_append]
      rw [list_cons, isRead, signed32, isNumber, toInt32_ofNat]
      rfl

end Token

end FontCatalog.Cff
