import FontCatalog.Bytes
import FontCatalog.Decimal.Integer
import FontCatalog.Text.WhiteSpace

/-!
# CID system information

The character collection of a CID-keyed font: registry, ordering and supplement. TrueType fonts of
old Macintosh systems store it in a table with the tag `gcid`.
-/

namespace FontCatalog

/-- The character collection of a CID-keyed font. -/
structure CidSystemInfo where
  registry : String
  ordering : String
  supplement : Int32
deriving DecidableEq

/-- Registry, ordering and supplement, joined by hyphens. -/
def CidSystemInfo.display (info : CidSystemInfo) : String :=
  info.registry ++ "-" ++ info.ordering ++ "-" ++
    String.ofList (Decimal.integer info.supplement.toInt)

/-- Why the `gcid` table cannot be used: it has too few bytes. -/
structure GcidTooShort where
  size : Nat
deriving DecidableEq

/-- The wording of the fault. -/
def GcidTooShort.message (fault : GcidTooShort) : String :=
  "'gcid' table too short: " ++ Decimal.text fault.size ++ " bytes"

namespace Gcid

/-- How many bytes a `gcid` table has to have. -/
def minimumSize : Nat := 142

/-- Blanks around a field: the space and every control character before it. -/
def isPadding (char : Char) : Bool :=
  char.toNat ≤ 0x20

/-- How a byte of an ASCII field shows; a byte that is not ASCII shows as U+FFFD. -/
def shown (byte : UInt8) : Char :=
  if byte < 0x80 then Char.ofNat byte.toNat else '\uFFFD'

/-- The text of a fixed-width ASCII field without the padding around it. -/
def field (bytes : Bytes) : String :=
  String.ofList (Text.trimBy isPadding (bytes.map shown))

/-- The supplement of two bytes: both are extended by their signs, and the first, moved up by
eight bits, is masked with the second. -/
def supplement (high low : UInt8) : Int32 :=
  (high.toInt8.toInt32 <<< 8) &&& low.toInt8.toInt32

/-- Reads a `gcid` table. -/
def read (bytes : Bytes) : Except GcidTooShort CidSystemInfo :=
  if short : bytes.length < minimumSize then .error ⟨bytes.length⟩
  else
    have long : 142 ≤ bytes.length := Nat.le_of_not_lt short
    .ok
      { registry := field ((bytes.drop 10).take 64)
        ordering := field ((bytes.drop 76).take 64)
        supplement := supplement bytes[140] bytes[141] }

end Gcid

end FontCatalog
