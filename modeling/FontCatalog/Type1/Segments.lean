import FontCatalog.Bytes
import FontCatalog.Decimal.Integer

/-!
# PFB segments

A PFB file is a sequence of segments. A segment is the byte `0x80`, its kind, the length of its
body in four bytes, least significant first, and the body. Kind 1 is clear text and kind 2 is
encrypted; kind 3 has neither length nor body and ends the file, whatever follows it. Clear text
after the encrypted portion is padding and is not collected.
-/

namespace FontCatalog.Type1

/-- Why bytes are no PFB file. -/
inductive SegmentFault where
  | badMarker (offset : Nat)
  | truncatedHeader (offset : Nat)
  | overrun (offset : Nat)
  | unknownKind (kind : UInt8)
  | noClearText
deriving DecidableEq

/-- The wording of a fault. -/
def SegmentFault.message : SegmentFault → String
  | badMarker offset =>
      "not a PFB file: bad segment marker at offset " ++ Decimal.text offset
  | truncatedHeader offset =>
      "truncated PFB segment header at offset " ++ Decimal.text offset
  | overrun offset => "PFB segment at offset " ++ Decimal.text offset ++ " overruns the file"
  | unknownKind kind => "unknown PFB segment type " ++ Decimal.text kind.toNat
  | noClearText => "PFB file has no cleartext segment"

/-- The two portions of a Type 1 font. -/
structure Segments where
  clearText : Bytes
  encrypted : Bytes
deriving DecidableEq

namespace Segments

/-- The byte that opens every segment. -/
def marker : UInt8 := 0x80

/-- Takes in the body of one more segment, if its kind is known. -/
def add? (segments : Segments) (kind : UInt8) (body : Bytes) : Option Segments :=
  if kind = 1 then
    if segments.encrypted = [] then
      some { segments with clearText := segments.clearText ++ body }
    else some segments
  else if kind = 2 then some { segments with encrypted := segments.encrypted ++ body }
  else none

/-- Collects the segments of `data`, which stands at `offset` in its file. -/
def collect (offset : Nat) (collected : Segments) (data : Bytes) :
    Except SegmentFault Segments :=
  match data with
  | [] => .ok collected
  | first :: header =>
      if first ≠ marker then .error (.badMarker offset)
      else
        match header with
        | [] => .error (.truncatedHeader offset)
        | kind :: afterKind =>
            if kind = 3 then .ok collected
            else
              match afterKind with
              | byte0 :: byte1 :: byte2 :: byte3 :: body =>
                  let length := Bytes.littleEndian [byte0, byte1, byte2, byte3]
                  if body.length < length then .error (.overrun offset)
                  else
                    match collected.add? kind (body.take length) with
                    | none => .error (.unknownKind kind)
                    | some next => collect (offset + 6 + length) next (body.drop length)
              | _ => .error (.truncatedHeader offset)
termination_by data.length
decreasing_by
  simp only [List.length_drop, List.length_cons]
  omega

/-- Splits a PFB file into its portions; there has to be some clear text. -/
def split (data : Bytes) : Except SegmentFault Segments := do
  let segments ← collect 0 ⟨[], []⟩ data
  if segments.clearText = [] then .error .noClearText else .ok segments

end Segments

end FontCatalog.Type1
