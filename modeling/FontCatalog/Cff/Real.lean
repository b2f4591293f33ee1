import FontCatalog.Bytes

/-!
# Real operands

A real operand is written in decimal, one digit or sign in each half byte: digits, a decimal point,
and an exponent. Its value is a fixed-point number with 16 bits after the point, as a 32-bit
integer. Digits that would not fit are dropped and accounted for in the exponent.
-/

namespace FontCatalog.Cff

/-- Which part of a real operand is being read. -/
inductive RealPhase where
  | whole
  | fraction
  | exponent
deriving DecidableEq

/-- A real operand, as far as it has been read. -/
structure RealParts where
  phase : RealPhase
  isNegative : Bool
  isExponentNegative : Bool
  /-- The digits that fitted, as one number. -/
  number : Nat
  wholeDigits : Nat
  fractionDigits : Nat
  exponent : Nat
  /-- What the dropped digits add to the exponent. -/
  exponentShift : Int
deriving DecidableEq

/-- A real operand. -/
inductive Real where
  | written (parts : RealParts)
  /-- A negative exponent beyond all bounds. -/
  | underflow
  /-- A positive exponent beyond all bounds. -/
  | overflow
deriving DecidableEq

/-- What a half byte does to a real operand. -/
inductive RealStep where
  | continued (parts : RealParts)
  | finished (real : Real)

namespace RealParts

/-- A real operand of which nothing has been read. -/
def empty : RealParts :=
  ⟨.whole, false, false, 0, 0, 0, 0, 0⟩

/-- The number from which on further digits would not fit. -/
def numberLimit : Nat := 0xCCCCCCC

/-- The exponent beyond which a further digit ends the operand. -/
def exponentLimit : Nat := 1000

/-- Takes in a digit before the decimal point. Leading zeros do not count. -/
def addWholeDigit (parts : RealParts) (digit : Nat) : RealParts :=
  if numberLimit ≤ parts.number then { parts with exponentShift := parts.exponentShift + 1 }
  else if digit ≠ 0 ∨ parts.number ≠ 0 then
    { parts with number := parts.number * 10 + digit, wholeDigits := parts.wholeDigits + 1 }
  else parts

/-- Takes in a digit after the decimal point. Leading zeros lower the exponent. -/
def addFractionDigit (parts : RealParts) (digit : Nat) : RealParts :=
  if digit = 0 ∧ parts.number = 0 then { parts with exponentShift := parts.exponentShift - 1 }
  else if parts.number < numberLimit ∧ parts.fractionDigits < 9 then
    { parts with number := parts.number * 10 + digit, fractionDigits := parts.fractionDigits + 1 }
  else parts

/-- The start of an exponent. -/
def startExponent (parts : RealParts) (isNegative : Bool) : RealParts :=
  { parts with phase := .exponent, isExponentNegative := isNegative }

/-- Takes in half a byte. A half byte that is not allowed where it stands ends the operand. -/
def step (parts : RealParts) (half : Nat) : RealStep :=
  match parts.phase with
  | .whole =>
      if half < 10 then .continued (parts.addWholeDigit half)
      else if half = 0xE then .continued { parts with isNegative := true }
      else if half = 0xA then .continued { parts with phase := .fraction }
      else if half = 0xB then .continued (parts.startExponent false)
      else if half = 0xC then .continued (parts.startExponent true)
      else .finished (.written parts)
  | .fraction =>
      if half < 10 then .continued (parts.addFractionDigit half)
      else if half = 0xB then .continued (parts.startExponent false)
      else if half = 0xC then .continued (parts.startExponent true)
      else .finished (.written parts)
  | .exponent =>
      if half < 10 then
        if exponentLimit < parts.exponent then
          .finished (if parts.isExponentNegative then .underflow else .overflow)
        else .continued { parts with exponent := parts.exponent * 10 + half }
      else .finished (.written parts)

end RealParts

namespace Real

/-- Reads the rest of a real operand, and gives the number of bytes it takes. -/
def readFrom? (parts : RealParts) : Bytes → Option (Real × Nat)
  | [] => none
  | byte :: rest =>
      match parts.step (byte.toNat / 16) with
      | .finished real => some (real, 1)
      | .continued next =>
          match next.step (byte.toNat % 16) with
          | .finished real => some (real, 1)
          | .continued last => (readFrom? last rest).map fun (real, size) => (real, size + 1)

/-- Reads the real operand that the bytes start with, and gives the number of bytes it takes. -/
def read? (bytes : Bytes) : Option (Real × Nat) :=
  readFrom? .empty bytes

/-- The largest fixed-point number. -/
def largest : Int32 := 0x7FFFFFFF

/-- The fixed-point number of a real operand. With `isScaled`, it is worked out as a thousand
times the operand and divided by a thousand at the end, which keeps more digits of small
numbers. -/
def fixed (real : Real) (isScaled : Bool) : Int32 :=
  match real with
  | .underflow => 0
  | .overflow => largest
  | .written parts =>
      let ownExponent : Int := if parts.isExponentNegative then -parts.exponent else parts.exponent
      let exponent := ownExponent + parts.exponentShift + (if isScaled then 3 else 0)
      let wholeDigits := parts.wholeDigits + exponent
      let fractionDigits := parts.fractionDigits - exponent
      if parts.number = 0 then 0
      else if 5 < wholeDigits then largest
      else if wholeDigits < -5 then 0
      else
        let (number, fractionDigits) :=
          if wholeDigits < 0 then
            (parts.number / Nat.pow 10 (-wholeDigits).toNat, fractionDigits + wholeDigits)
          else (parts.number, fractionDigits)
        let (number, fractionDigits) :=
          if fractionDigits = 10 then (number / 10, 9) else (number, fractionDigits)
        let finish (bits : Int32) : Int32 :=
          let magnitude := if isScaled then Int32.ofInt ((bits.toInt + 500) / 1000) else bits
          if parts.isNegative then -magnitude else magnitude
        if 0 < fractionDigits then
          let divisor := Nat.pow 10 fractionDigits.toNat
          if 0x7FFF < number / divisor then 0
          else finish (Int32.ofNat ((number * 0x10000 + divisor / 2) / divisor))
        else
          let whole := Int32.ofNat (number * Nat.pow 10 (-fractionDigits).toNat)
          if 0x7FFF < whole then largest else finish (whole <<< 16)

end Real

end FontCatalog.Cff
