import FontCatalog.Bytes
import Mathlib.Algebra.Group.Nat.Defs

/-!
# Numbers and their bytes

Writing a number in a fixed count of bytes and reading it back, in both byte orders. A number comes
back when it fits into its bytes, and bytes come back whatever they are, so that in either order a
string of bytes of a given length and a number below the matching power of 256 are the same thing.
-/

namespace FontCatalog.Bytes

/-- The bytes of a number, least significant byte first. -/
def littleEndianOf : (width : Nat) → (number : Nat) → Bytes
  | 0, _ => []
  | width + 1, number => UInt8.ofNat number :: littleEndianOf width (number / 256)

/-- The bytes of a number, most significant byte first. -/
def bigEndianOf (width number : Nat) : Bytes :=
  (littleEndianOf width number).reverse

variable {width number : Nat} {bytes : Bytes}

/-! ## Least significant byte first -/

@[simp]
theorem length_littleEndianOf (width number : Nat) :
    (littleEndianOf width number).length = width := by
  induction width generalizing number with
  | zero => rfl
  | succ width ih => simp [littleEndianOf, ih]

theorem littleEndian_littleEndianOf (fits : number < 256 ^ width) :
    littleEndian (littleEndianOf width number) = number := by
  induction width generalizing number with
  | zero =>
      rw [Nat.pow_zero] at fits
      simp only [littleEndianOf, littleEndian]
      omega
  | succ width ih =>
      have smaller : number / 256 < 256 ^ width := by
        rw [Nat.pow_succ] at fits
        omega
      simp only [littleEndianOf, littleEndian, ih smaller, UInt8.toNat_ofNat']
      omega

theorem littleEndianOf_littleEndian (bytes : Bytes) :
    littleEndianOf bytes.length (littleEndian bytes) = bytes := by
  induction bytes with
  | nil => rfl
  | cons byte rest ih =>
      have isByte : UInt8.ofNat (byte.toNat + 256 * littleEndian rest) = byte := by
        apply UInt8.toNat_inj.mp
        have := byte.toNat_lt
        rw [UInt8.toNat_ofNat']
        omega
      have isRest : (byte.toNat + 256 * littleEndian rest) / 256 = littleEndian rest := by
        have := byte.toNat_lt
        omega
      simp only [littleEndian, List.length_cons, littleEndianOf, isByte, isRest, ih]

theorem littleEndian_lt (bytes : Bytes) : littleEndian bytes < 256 ^ bytes.length := by
  induction bytes with
  | nil => simp [littleEndian]
  | cons byte rest ih =>
      have := byte.toNat_lt
      simp only [littleEndian, List.length_cons, Nat.pow_succ]
      omega

/-! ## Most significant byte first -/

theorem bigEndian_eq (bytes : Bytes) : bigEndian bytes = littleEndian bytes.reverse := by
  have folded : ∀ bytes : Bytes,
      littleEndian bytes = bytes.foldr (fun byte number => number * 256 + byte.toNat) 0 := by
    intro bytes
    induction bytes with
    | nil => rfl
    | cons byte rest ih =>
        rw [littleEndian, ih, List.foldr_cons]
        omega
  rw [folded, List.foldr_reverse]
  rfl

@[simp]
theorem length_bigEndianOf (width number : Nat) : (bigEndianOf width number).length = width := by
  simp [bigEndianOf]

theorem bigEndian_bigEndianOf (fits : number < 256 ^ width) :
    bigEndian (bigEndianOf width number) = number := by
  rw [bigEndian_eq, bigEndianOf, List.reverse_reverse, littleEndian_littleEndianOf fits]

@[simp]
theorem bigEndian_u16 (value : UInt16) : bigEndian (bigEndianOf 2 value.toNat) = value.toNat :=
  bigEndian_bigEndianOf value.toNat_lt

@[simp]
theorem bigEndian_u32 (value : UInt32) : bigEndian (bigEndianOf 4 value.toNat) = value.toNat :=
  bigEndian_bigEndianOf value.toNat_lt

end FontCatalog.Bytes
