import FontCatalog.Text.Utf16

/-!
# UTF-16 round trip

The characters of a text come back from their units. A character is no surrogate, so a unit of its
own is not taken for half of a pair, and the two halves of a larger character are put together
again.
-/

namespace FontCatalog.Text.Utf16

/-- The units of one character. -/
def charUnits (char : Char) : List Nat :=
  if char.toNat < 0x10000 then [char.toNat]
  else [0xD800 + (char.toNat - 0x10000) / 0x400, 0xDC00 + (char.toNat - 0x10000) % 0x400]

theorem toNat_range (char : Char) :
    char.toNat < 0xD800 ∨ 0xDFFF < char.toNat ∧ char.toNat < 0x110000 :=
  char.valid

theorem unit_of_bytes {number : Nat} (fits : number < 0x10000) :
    (UInt8.ofNat (number / 256)).toNat * 256 + (UInt8.ofNat number).toNat = number := by
  rw [UInt8.toNat_ofNat', UInt8.toNat_ofNat']
  omega

theorem units_encodeChar (char : Char) (rest : Bytes) :
    units (encodeChar char ++ rest) = charUnits char ++ units rest := by
  have range := toNat_range char
  unfold encodeChar charUnits
  dsimp only
  split
  · rename_i small
    simp only [List.cons_append, List.nil_append, units]
    rw [unit_of_bytes small]
  · simp only [List.cons_append, List.nil_append, units]
    rw [unit_of_bytes (by omega), unit_of_bytes (by omega)]

theorem decodeUnits_charUnits (char : Char) (rest : List Nat) :
    decodeUnits (charUnits char ++ rest) = char :: decodeUnits rest := by
  have range := toNat_range char
  unfold charUnits
  split
  · have notLead : ¬(0xD800 ≤ char.toNat ∧ char.toNat ≤ 0xDBFF) := by omega
    have notTrail : ¬(0xDC00 ≤ char.toNat ∧ char.toNat ≤ 0xDFFF) := by omega
    rw [List.singleton_append, decodeUnits.eq_def]
    simp only [if_neg notLead, if_neg notTrail, Char.ofNat_toNat]
  · have isLead : 0xD800 ≤ 0xD800 + (char.toNat - 0x10000) / 0x400 ∧
        0xD800 + (char.toNat - 0x10000) / 0x400 ≤ 0xDBFF := by omega
    have paired : (0xD800 + (char.toNat - 0x10000) / 0x400) % 0x400 * 0x400 +
        (0xDC00 + (char.toNat - 0x10000) % 0x400) % 0x400 + 0x10000 = char.toNat := by omega
    simp only [List.cons_append, List.nil_append]
    rw [decodeUnits, if_pos isLead]
    simp only [pair, paired, Char.ofNat_toNat]

theorem decode_encode (text : List Char) : decode (encode text) = text := by
  induction text with
  | nil => rfl
  | cons char rest ih =>
      rw [decode, encode, List.flatMap_cons, units_encodeChar, decodeUnits_charUnits]
      exact congrArg (char :: ·) ih

end FontCatalog.Text.Utf16
