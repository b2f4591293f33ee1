import FontCatalog.Bytes
import FontCatalog.Decimal.Integer

/-!
# Faults of sfnt data

Why bytes are no sfnt font or no collection of such fonts.
-/

namespace FontCatalog.Sfnt

/-- Why sfnt data cannot be read. -/
inductive ReadFault where
  | outOfBounds
  | badVersion (version : UInt32)
  | badCollectionTag (tag : UInt32)
  | noSuchMember (index : Nat)
deriving DecidableEq

namespace ReadFault

/-- An upper-case hexadecimal digit. -/
def hexDigit (value : Nat) : Char :=
  if value < 10 then Char.ofNat ('0'.toNat + value) else Char.ofNat ('A'.toNat + (value - 10))

/-- The hexadecimal digits of a byte. -/
def hexByte (byte : Nat) : List Char :=
  [hexDigit (byte / 16), hexDigit (byte % 16)]

/-- The four bytes of a number. -/
def bytesOf (number : UInt32) : List Nat :=
  let value := number.toNat
  [value / 0x1000000, value / 0x10000 % 0x100, value / 0x100 % 0x100, value % 0x100]

/-- A byte of a tag: printable ASCII as it is, anything else as its number in braces. -/
def tagByte (byte : Nat) : List Char :=
  if 0x20 ≤ byte ∧ byte ≤ 0x7E then [Char.ofNat byte]
  else "\x7b0x".toList ++ hexByte byte ++ ['\x7d']

/-- The wording of a fault. -/
def message : ReadFault → String
  | outOfBounds => "An offset was out of bounds"
  | badVersion version =>
      "Invalid sfnt version 0x" ++ String.ofList ((bytesOf version).flatMap hexByte)
  | badCollectionTag tag =>
      "Invalid ttc tag " ++ String.ofList ((bytesOf tag).flatMap tagByte)
  | noSuchMember index => "Invalid index " ++ Decimal.text index ++ " for font collection"

end ReadFault

end FontCatalog.Sfnt
