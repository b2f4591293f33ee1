import FontCatalog.Bytes

/-!
# UTF-8

Encoding and decoding of texts. The decoder walks over the bytes with at most one unfinished
sequence in hand. A byte that cannot continue the unfinished sequence ends it, so each maximal
piece of a malformed sequence is reported once, and the byte itself is looked at afresh.
-/

namespace FontCatalog.Text.Utf8

/-- The bytes of one character. -/
def encodeChar (char : Char) : Bytes :=
  let code := char.toNat
  if code < 0x80 then [UInt8.ofNat code]
  else if code < 0x800 then
    [UInt8.ofNat (0xC0 + code / 0x40), UInt8.ofNat (0x80 + code % 0x40)]
  else if code < 0x10000 then
    [UInt8.ofNat (0xE0 + code / 0x1000), UInt8.ofNat (0x80 + code / 0x40 % 0x40),
      UInt8.ofNat (0x80 + code % 0x40)]
  else
    [UInt8.ofNat (0xF0 + code / 0x40000), UInt8.ofNat (0x80 + code / 0x1000 % 0x40),
      UInt8.ofNat (0x80 + code / 0x40 % 0x40), UInt8.ofNat (0x80 + code % 0x40)]

/-- The bytes of a text. -/
def encode (text : List Char) : Bytes :=
  text.flatMap encodeChar

/-- An unfinished sequence: the bits read so far, how many bytes are still to come, and between
which bounds the next of them has to lie. -/
structure Unfinished where
  value : Nat
  missing : Nat
  lowest : Nat
  highest : Nat
deriving DecidableEq

/-- The sequence that a lead byte opens. The bounds on the second byte rule out overlong forms,
surrogates and values beyond the last character. -/
def Unfinished.ofLead? (byte : Nat) : Option Unfinished :=
  if 0xC2 ≤ byte ∧ byte ≤ 0xDF then some ⟨byte - 0xC0, 1, 0x80, 0xBF⟩
  else if byte = 0xE0 then some ⟨0, 2, 0xA0, 0xBF⟩
  else if byte = 0xED then some ⟨0xD, 2, 0x80, 0x9F⟩
  else if 0xE1 ≤ byte ∧ byte ≤ 0xEF then some ⟨byte - 0xE0, 2, 0x80, 0xBF⟩
  else if byte = 0xF0 then some ⟨0, 3, 0x90, 0xBF⟩
  else if 0xF1 ≤ byte ∧ byte ≤ 0xF3 then some ⟨byte - 0xF0, 3, 0x80, 0xBF⟩
  else if byte = 0xF4 then some ⟨4, 3, 0x80, 0x8F⟩
  else none

/-- What a byte does when no sequence is unfinished: the finished characters, where `none` is a
malformed piece, and the sequence it leaves unfinished. -/
def start (byte : Nat) : List (Option Char) × Option Unfinished :=
  if byte < 0x80 then ([some (Char.ofNat byte)], none)
  else
    match Unfinished.ofLead? byte with
    | some sequence => ([], some sequence)
    | none => ([none], none)

/-- What a byte does after an unfinished sequence. -/
def Unfinished.advance (sequence : Unfinished) (byte : Nat) :
    List (Option Char) × Option Unfinished :=
  if sequence.lowest ≤ byte ∧ byte ≤ sequence.highest then
    let value := sequence.value * 0x40 + (byte - 0x80)
    if sequence.missing = 1 then ([some (Char.ofNat value)], none)
    else ([], some ⟨value, sequence.missing - 1, 0x80, 0xBF⟩)
  else
    let (finished, next) := start byte
    (none :: finished, next)

/-- Decoding with a sequence that may be unfinished. -/
def decodeFrom : Option Unfinished → Bytes → List (Option Char)
  | none, [] => []
  | some _, [] => [none]
  | none, byte :: rest =>
      let (finished, next) := start byte.toNat
      finished ++ decodeFrom next rest
  | some sequence, byte :: rest =>
      let (finished, next) := sequence.advance byte.toNat
      finished ++ decodeFrom next rest

/-- The characters that the bytes spell; each malformed piece is `none`. -/
def decode (bytes : Bytes) : List (Option Char) :=
  decodeFrom none bytes

/-- The characters that the bytes spell, with U+FFFD for each malformed piece. -/
def decodeLossy (bytes : Bytes) : List Char :=
  (decode bytes).map fun char => char.getD '\uFFFD'

/-- The text that the bytes spell, if no piece of them is malformed. -/
def decode? (bytes : Bytes) : Option (List Char) :=
  (decode bytes).mapM id

/-- How many bytes the encoded text takes. -/
def size (text : List Char) : Nat :=
  (encode text).length

end FontCatalog.Text.Utf8
