/-!
# Byte strings

A byte string is a list of bytes. Multi-byte numbers are stored most significant byte first in
sfnt and CFF data, and least significant byte first in PFB segments. Every read at a position is
checked: it gives `none` when one of its bytes is missing.
-/

namespace FontCatalog

/-- A string of bytes. -/
abbrev Bytes := List UInt8

namespace Bytes

/-- The `length` bytes from `start` on, if all of them are there. -/
def slice? (bytes : Bytes) (start length : Nat) : Option Bytes :=
  if start + length ≤ bytes.length then some ((bytes.drop start).take length) else none

/-- The number that the bytes spell, most significant byte first. -/
def bigEndian (bytes : Bytes) : Nat :=
  bytes.foldl (fun value byte => value * 256 + byte.toNat) 0

/-- The number that the bytes spell, least significant byte first. -/
def littleEndian : Bytes → Nat
  | [] => 0
  | byte :: rest => byte.toNat + 256 * littleEndian rest

/-- The `width`-byte number at `offset`, most significant byte first. -/
def numberAt? (bytes : Bytes) (offset width : Nat) : Option Nat :=
  (bytes.slice? offset width).map bigEndian

/-- The byte at `offset`. -/
def u8At? (bytes : Bytes) (offset : Nat) : Option UInt8 :=
  bytes[offset]?

/-- The 16-bit number at `offset`. -/
def u16At? (bytes : Bytes) (offset : Nat) : Option UInt16 :=
  (bytes.numberAt? offset 2).map UInt16.ofNat

/-- The 32-bit number at `offset`. -/
def u32At? (bytes : Bytes) (offset : Nat) : Option UInt32 :=
  (bytes.numberAt? offset 4).map UInt32.ofNat

/-- The first `count` chunks of `width` bytes each; the bytes after them do not count. -/
def chunks (width : Nat) : Nat → Bytes → List Bytes
  | 0, _ => []
  | count + 1, bytes => bytes.take width :: chunks width count (bytes.drop width)

/-- `count` chunks of `width` bytes each, starting at `offset`, or no chunk at all when they do not
all fit. -/
def table (bytes : Bytes) (offset width count : Nat) : List Bytes :=
  if offset + width * count ≤ bytes.length then chunks width count (bytes.drop offset) else []

end Bytes

/-- The pieces between the elements that `isSeparator` accepts; there is always at least one. -/
def pieces {α : Type} (isSeparator : α → Bool) : List α → List (List α)
  | [] => [[]]
  | element :: rest =>
      if isSeparator element then [] :: pieces isSeparator rest
      else
        match pieces isSeparator rest with
        | [] => [[element]]
        | first :: others => (element :: first) :: others

end FontCatalog
