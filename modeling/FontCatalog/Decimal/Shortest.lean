import FontCatalog.Decimal.Integer

/-!
# Shortest decimal text of a floating-point number

A double-precision number is a natural number times a power of two. All real numbers near enough
to it are rounded to it, and the shortest decimal text that lies among them stands for it. For one
digit, two digits and so on, the two neighbours of the number on the decimal grid of that many
digits are tried in exact arithmetic; the nearer of two that lie near enough wins, and of two
equally near ones the even one.
-/

namespace FontCatalog.Decimal

/-- A finite positive number: `mantissa` times two to the power of `exponent`. The gap to the next
smaller number is half as wide as the gap above when `narrowBelow` holds. -/
structure Binary where
  mantissa : Nat
  exponent : Int
  narrowBelow : Bool

/-- The leading unit of the mantissa of a double, which is not among its bits. -/
def hiddenUnit : Nat := 0x10000000000000

/-- The number that the bits of a finite double spell, without the sign. -/
def Binary.ofBits (bits : UInt64) : Binary :=
  let field : Nat := (bits.toNat / hiddenUnit) % 0x800
  let fraction : Nat := bits.toNat % hiddenUnit
  if field = 0 then ⟨fraction, -1074, false⟩
  else ⟨fraction + hiddenUnit, (field : Int) - 1075, fraction = 0 && 1 < field⟩

/-- A decimal number: `digits` is a whole number of units of ten to the power of `scale`. -/
structure Scaled where
  digits : Nat
  scale : Int

/-- The power of a base with the natural part of an exponent. -/
def power (base : Nat) (exponent : Int) : Nat :=
  Nat.pow base exponent.toNat

/-- A number as a fraction of the unit ten to the power of `scale`, four times over in the
numerator, so that the bounds of its neighbourhood are whole as well. -/
def Binary.fraction (number : Binary) (scale : Int) : Nat × Nat :=
  (power 2 number.exponent * power 10 (-scale),
    4 * power 2 (-number.exponent) * power 10 scale)

/-- The nearest point of the decimal grid with the given scale, if one is near enough. -/
def Binary.nearest? (number : Binary) (scale : Int) : Option Scaled :=
  let (unit, denominator) := number.fraction scale
  let value := 4 * number.mantissa * unit
  let low := (4 * number.mantissa - (if number.narrowBelow then 1 else 2)) * unit
  let high := (4 * number.mantissa + 2) * unit
  let isNear (digits : Nat) : Bool :=
    if number.mantissa % 2 = 0 then low ≤ digits * denominator && digits * denominator ≤ high
    else low < digits * denominator && digits * denominator < high
  let below := value / denominator
  let above := below + 1
  let gapBelow := value - below * denominator
  let gapAbove := above * denominator - value
  match isNear below, isNear above with
  | true, true =>
      if gapBelow < gapAbove ∨ (gapBelow = gapAbove ∧ below % 2 = 0) then some ⟨below, scale⟩
      else some ⟨above, scale⟩
  | true, false => some ⟨below, scale⟩
  | false, true => some ⟨above, scale⟩
  | false, false => none

/-- The power of ten of the leading digit of a positive number. -/
def Binary.magnitude (number : Binary) : Int :=
  let whole := number.mantissa * power 2 number.exponent / power 2 (-number.exponent)
  if 0 < whole then (digits whole).length - 1
  else
    let numerator := number.mantissa
    let denominator := power 2 (-number.exponent)
    let isReached (places : Nat) : Bool := denominator ≤ numerator * Nat.pow 10 places
    let places := ((List.range 400).find? isReached).getD 0
    (-(places : Int))

/-- The shortest decimal number that is near enough to a positive number. -/
def Binary.shortest (number : Binary) : Scaled :=
  let leading := number.magnitude
  let candidates := (List.range 17).filterMap fun (count : Nat) =>
    number.nearest? (leading - (count : Int))
  candidates.head?.getD ⟨0, 0⟩

/-- A way of writing decimal numbers. -/
structure NumeralStyle where
  /-- The least power of ten of a leading digit that is written without an exponent. -/
  lowestPlain : Int
  /-- The greatest power of ten of a leading digit that is written without an exponent. -/
  highestPlain : Int

/-- The text of the digits of a number whose leading digit counts ten to the power of
`leading`. -/
def NumeralStyle.digitsText (style : NumeralStyle) (shown : List Char) (leading : Int) :
    List Char :=
  if style.lowestPlain ≤ leading ∧ leading ≤ style.highestPlain then
    if leading < 0 then
      "0.".toList ++ List.replicate (-leading - 1).toNat '0' ++ shown
    else
      let places := leading.toNat + 1
      if shown.length ≤ places then
        shown ++ List.replicate (places - shown.length) '0' ++ ".0".toList
      else shown.take places ++ '.' :: shown.drop places
  else
    let mantissa :=
      match shown with
      | [] => []
      | [digit] => [digit]
      | digit :: others => digit :: '.' :: others
    let sign := if leading < 0 then '-' else '+'
    mantissa ++ 'e' :: sign :: digits leading.natAbs

/-- The shortest text of a finite double. -/
def NumeralStyle.text (style : NumeralStyle) (value : Float) : List Char :=
  let bits := value.toBits
  let sign := if bits.toNat < 0x8000000000000000 then [] else ['-']
  let number := Binary.ofBits bits
  if number.mantissa = 0 then sign ++ "0.0".toList
  else
    let scaled := number.shortest
    let all := digits scaled.digits
    let leading := scaled.scale + (all.length : Int) - 1
    let shown := (all.reverse.dropWhile (· = '0')).reverse
    sign ++ style.digitsText shown leading

end FontCatalog.Decimal
