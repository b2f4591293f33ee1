import FontCatalog.Bytes
import FontCatalog.Decimal.Integer

/-!
# INDEX structures

An INDEX is an array of byte strings of any lengths: a count, the width of its offsets, one more
offset than there are objects, and the bytes of the objects. Offsets count from 1. Three bytes
have to be there even for an empty INDEX, although it takes up only two.
-/

namespace FontCatalog.Cff

/-- Why an object of an INDEX cannot be read. -/
inductive IndexFault where
  | outOfBounds
  | badOffsetSize (size : UInt8)
  | zeroOffset
deriving DecidableEq

/-- The wording of a fault. -/
def IndexFault.message : IndexFault → String
  | outOfBounds => "An offset was out of bounds"
  | badOffsetSize size =>
      "invalid offset size of " ++ Decimal.text size.toNat ++ " for INDEX (expected 1-4)"
  | zeroOffset => "invalid offset of 0 in INDEX (must be >= 1)"

/-- An INDEX. -/
structure Index where
  count : Nat
  offsetSize : UInt8
  /-- The bytes of the offsets, empty when not all of them are there. -/
  offsets : Bytes
  /-- The bytes of the objects, and whatever follows them. -/
  objects : Bytes
deriving DecidableEq

namespace Index

/-- How many bytes the offsets take. -/
def offsetsLength (index : Index) : Nat :=
  (index.count + 1) * index.offsetSize.toNat

/-- Reads the INDEX that the bytes start with. -/
def read? (bytes : Bytes) : Option Index :=
  match bytes with
  | high :: low :: offsetSize :: rest =>
      let count := high.toNat * 256 + low.toNat
      let length := (count + 1) * offsetSize.toNat
      some
        { count := count
          offsetSize := offsetSize
          offsets := if length ≤ rest.length then rest.take length else []
          objects := rest.drop length }
  | _ => none

/-- Where the object with the given number starts, counted from 0. There is one offset more than
there are objects. -/
def start (index : Index) (number : Nat) : Except IndexFault Nat :=
  if index.count < number then .error .outOfBounds
  else if index.offsetSize = 0 ∨ 4 < index.offsetSize then
    .error (.badOffsetSize index.offsetSize)
  else
    let width := index.offsetSize.toNat
    match index.offsets.numberAt? (number * width) width with
    | none => .error .outOfBounds
    | some 0 => .error .zeroOffset
    | some (offset + 1) => .ok offset

/-- The object with the given number. -/
def object (index : Index) (number : Nat) : Except IndexFault Bytes := do
  let first ← index.start number
  let last ← index.start (number + 1)
  if first ≤ last then
    match index.objects.slice? first (last - first) with
    | some bytes => .ok bytes
    | none => .error .outOfBounds
  else .error .outOfBounds

/-- How many bytes the INDEX takes, as far as its last offset can be read. -/
def size? (index : Index) : Option Nat :=
  if index.count = 0 then some 2
  else
    match index.start index.count with
    | .ok last => some (3 + index.offsetsLength + last)
    | .error _ => none

/-- Reads the INDEX that the bytes start with, and gives the bytes after it as well. -/
def readPast? (bytes : Bytes) : Option (Index × Bytes) := do
  let index ← read? bytes
  let size ← index.size?
  pure (index, bytes.drop size)

end Index

end FontCatalog.Cff
