import FontCatalog.Bytes

/-!
# UTF-16 with the most significant byte first

The encoding of most strings in naming tables. A lead unit is combined with the unit after it,
whichever that is; a unit that is a trail unit on its own, or a lead unit at the very end, decodes
to U+FFFD, and a last odd byte is dropped.
-/

namespace FontCatalog.Text.Utf16

/-- The 16-bit units of the bytes. -/
def units : Bytes → List Nat
  | high :: low :: rest => (high.toNat * 256 + low.toNat) :: units rest
  | _ => []

/-- The character that a lead unit makes together with the unit after it. -/
def pair (lead next : Nat) : Char :=
  Char.ofNat (lead % 0x400 * 0x400 + next % 0x400 + 0x10000)

/-- The characters of a list of units. -/
def decodeUnits : List Nat → List Char
  | [] => []
  | unit :: rest =>
      if 0xD800 ≤ unit ∧ unit ≤ 0xDBFF then
        match rest with
        | [] => ['\uFFFD']
        | next :: others => pair unit next :: decodeUnits others
      else if 0xDC00 ≤ unit ∧ unit ≤ 0xDFFF then '\uFFFD' :: decodeUnits rest
      else Char.ofNat unit :: decodeUnits rest

/-- The characters that the bytes spell. -/
def decode (bytes : Bytes) : List Char :=
  decodeUnits (units bytes)

/-- The bytes of one character: a unit of its own, or a lead and a trail unit. -/
def encodeChar (char : Char) : Bytes :=
  let code := char.toNat
  if code < 0x10000 then [UInt8.ofNat (code / 256), UInt8.ofNat code]
  else
    let lead := 0xD800 + (code - 0x10000) / 0x400
    let trail := 0xDC00 + (code - 0x10000) % 0x400
    [UInt8.ofNat (lead / 256), UInt8.ofNat lead, UInt8.ofNat (trail / 256), UInt8.ofNat trail]

/-- The bytes of a text. -/
def encode (text : List Char) : Bytes :=
  text.flatMap encodeChar

end FontCatalog.Text.Utf16
