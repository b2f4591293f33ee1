import FontCatalog.Decimal.Shortest
import FontCatalog.Json.Fault
import FontCatalog.Text.Utf8

/-!
# Scanning of JSON tokens

The smallest parts of a JSON text: blanks, fixed words, strings and numbers. Every scanner gives
what it read and the rest of the text after it.
-/

namespace FontCatalog.Json

/-- A reader takes a value off the front of a text. -/
abbrev Reader (α : Type) :=
  List Char → Except Fault (α × List Char)

/-- The characters that may stand between tokens. -/
def isBlank (char : Char) : Bool :=
  char = ' ' || char = '\t' || char = '\n' || char = '\r'

/-- The text without the blanks in front of it. -/
def skipBlanks (text : List Char) : List Char :=
  text.dropWhile isBlank

/-- Reads what is left of one of the words `null`, `true` and `false` after its first letter. -/
def readWord : List Char → List Char → Except Fault (List Char)
  | [], rest => .ok rest
  | _ :: _, [] => .error .endInValue
  | letter :: letters, char :: rest =>
      if char = letter then readWord letters rest else .error .expectedIdentifier

/-! ## Strings -/

/-- The value of a hexadecimal digit. -/
def hexDigit? (char : Char) : Option Nat :=
  if '0' ≤ char ∧ char ≤ '9' then some (char.toNat - '0'.toNat)
  else if 'a' ≤ char ∧ char ≤ 'f' then some (char.toNat - 'a'.toNat + 10)
  else if 'A' ≤ char ∧ char ≤ 'F' then some (char.toNat - 'A'.toNat + 10)
  else none

/-- The number that four hexadecimal digits spell. -/
def hexNumber? (char1 char2 char3 char4 : Char) : Option Nat := do
  let digit1 ← hexDigit? char1
  let digit2 ← hexDigit? char2
  let digit3 ← hexDigit? char3
  let digit4 ← hexDigit? char4
  pure (((digit1 * 16 + digit2) * 16 + digit3) * 16 + digit4)

/-- Why the text does not start with four hexadecimal digits: less than four bytes of it are left,
or one of them is no digit. -/
def hexFault (text : List Char) : Fault :=
  if Text.Utf8.size text < 4 then .endInText else .invalidEscape

/-- The character that a one-letter escape stands for. -/
def escaped? : Char → Option Char
  | '"' => some '"'
  | '\\' => some '\\'
  | '/' => some '/'
  | 'b' => some '\x08'
  | 'f' => some '\x0C'
  | 'n' => some '\n'
  | 'r' => some '\r'
  | 't' => some '\t'
  | _ => none

/-- The unit is the first half of a surrogate pair. -/
def isLeadSurrogate (unit : Nat) : Bool :=
  0xD800 ≤ unit && unit ≤ 0xDBFF

/-- The unit is the second half of a surrogate pair. -/
def isTrailSurrogate (unit : Nat) : Bool :=
  0xDC00 ≤ unit && unit ≤ 0xDFFF

/-- The character that a surrogate pair stands for. -/
def surrogatePair (lead trail : Nat) : Char :=
  Char.ofNat ((lead - 0xD800) * 0x400 + (trail - 0xDC00) + 0x10000)

/-- Puts a character in front of a string that is read. -/
def prepend (char : Char) : Except Fault (List Char × List Char) →
    Except Fault (List Char × List Char)
  | .ok (value, rest) => .ok (char :: value, rest)
  | .error fault => .error fault

/-- Reads a string after its opening quote, up to and including its closing quote. -/
def readString : Reader (List Char)
  | [] => .error .endInText
  | '"' :: rest => .ok ([], rest)
  | '\\' :: [] => .error .endInText
  | '\\' :: 'u' :: char1 :: char2 :: char3 :: char4 :: rest =>
      match hexNumber? char1 char2 char3 char4 with
      | none => .error (hexFault (char1 :: char2 :: char3 :: char4 :: rest))
      | some unit =>
          if isTrailSurrogate unit then .error .loneSurrogate
          else if isLeadSurrogate unit then
            match rest with
            | [] => .error .endInText
            | '\\' :: [] => .error .endInText
            | '\\' :: 'u' :: char5 :: char6 :: char7 :: char8 :: others =>
                match hexNumber? char5 char6 char7 char8 with
                | none => .error (hexFault (char5 :: char6 :: char7 :: char8 :: others))
                | some trail =>
                    if isTrailSurrogate trail then
                      prepend (surrogatePair unit trail) (readString others)
                    else .error .loneSurrogate
            | '\\' :: 'u' :: others => .error (hexFault others)
            | _ => .error .unfinishedSurrogatePair
          else prepend (Char.ofNat unit) (readString rest)
  | '\\' :: 'u' :: rest => .error (hexFault rest)
  | '\\' :: letter :: rest =>
      match escaped? letter with
      | none => .error .invalidEscape
      | some char => prepend char (readString rest)
  | char :: rest =>
      if char.toNat < 0x20 then .error .controlCharacter
      else prepend char (readString rest)

/-- Passes over a string after its opening quote. Surrogates need not be paired. -/
def skipString : List Char → Except Fault (List Char)
  | [] => .error .endInText
  | '"' :: rest => .ok rest
  | '\\' :: [] => .error .endInText
  | '\\' :: 'u' :: char1 :: char2 :: char3 :: char4 :: rest =>
      match hexNumber? char1 char2 char3 char4 with
      | none => .error (hexFault (char1 :: char2 :: char3 :: char4 :: rest))
      | some _ => skipString rest
  | '\\' :: 'u' :: rest => .error (hexFault rest)
  | '\\' :: letter :: rest =>
      match escaped? letter with
      | none => .error .invalidEscape
      | some _ => skipString rest
  | char :: rest => if char.toNat < 0x20 then .error .controlCharacter else skipString rest

/-! ## Numbers -/

/-- A number: an integer of at most 64 bits, or a floating-point number. -/
inductive Number where
  | integer (value : Int)
  | real (value : Float)

/-- The value of a decimal digit. -/
def digitValue (char : Char) : Nat :=
  char.toNat - '0'.toNat

/-- The largest significand. -/
def significandLimit : Nat :=
  0xFFFFFFFFFFFFFFFF

/-- Takes digits into a significand as long as it stays below its limit; gives the significand and
the digits that are left. -/
def absorb (significand : Nat) : List Char → Nat × List Char
  | [] => (significand, [])
  | digit :: digits =>
      let next := significand * 10 + digitValue digit
      if significandLimit < next then (significand, digit :: digits) else absorb next digits

/-- A finite floating-point number with the given sign. -/
def signed (negative : Bool) (value : Float) : Float :=
  if negative then -value else value

/-- The floating-point number that is nearest to a power of ten. -/
def powerOfTen (exponent : Nat) : Float :=
  Float.ofScientific 1 false exponent

/-- A significand that is divided by a power of ten, in steps of at most 308 places. -/
def divideByPower : Nat → Float → Nat → Float
  | 0, value, _ => value
  | fuel + 1, value, exponent =>
      if exponent ≤ 308 then value / powerOfTen exponent
      else if value == 0 then value
      else divideByPower fuel (value / powerOfTen 308) (exponent - 308)

/-- The floating-point number of a significand and a power of ten. -/
def realOfParts (negative : Bool) (significand : Nat) (exponent : Int) : Except Fault Float :=
  let value := (UInt64.ofNat significand).toFloat
  match exponent with
  | .ofNat places =>
      if places ≤ 308 then
        let product := value * powerOfTen places
        if product.isInf then .error .numberOutOfRange else .ok (signed negative product)
      else if significand = 0 then .ok (signed negative value)
      else .error .numberOutOfRange
  | .negSucc places => .ok (signed negative (divideByPower 4 value (places + 1)))

/-- The largest exponent that is read as such. -/
def exponentLimit : Nat :=
  0x7FFFFFFF

/-- Reads the exponent of a number after the letter that announces it. -/
def readExponent (negative : Bool) (significand : Nat) (scale : Int) : Reader Float := fun text =>
  let (isNegative, digitsOnwards) :=
    match text with
    | '+' :: rest => (false, rest)
    | '-' :: rest => (true, rest)
    | _ => (false, text)
  match digitsOnwards with
  | [] => .error .endInValue
  | char :: _ =>
      if char.isDigit then do
        let digits := digitsOnwards.takeWhile Char.isDigit
        let rest := digitsOnwards.dropWhile Char.isDigit
        let exponent := Nat.ofDigitChars 10 digits 0
        if exponentLimit < exponent then
          if significand ≠ 0 ∧ ¬isNegative then .error .numberOutOfRange
          else .ok (signed negative 0, rest)
        else
          let value ← realOfParts negative significand
            (if isNegative then scale - exponent else scale + exponent)
          .ok (value, rest)
      else .error .invalidNumber

/-- Reads an exponent, if one follows. -/
def readScaled (negative : Bool) (significand : Nat) (scale : Int) : Reader Float := fun text =>
  match text with
  | 'e' :: rest | 'E' :: rest => readExponent negative significand scale rest
  | _ => do
      let value ← realOfParts negative significand scale
      .ok (value, text)

/-- Reads the digits after a decimal point, and an exponent, if one follows. -/
def readFraction (negative : Bool) (significand : Nat) (scale : Int) : Reader Float := fun text =>
  let digits := text.takeWhile Char.isDigit
  let rest := text.dropWhile Char.isDigit
  if digits = [] then
    if text = [] then .error .endInValue else .error .invalidNumber
  else
    let (absorbed, left) := absorb significand digits
    readScaled negative absorbed (scale - ((digits.length - left.length : Nat) : Int)) rest

/-- The number of an integer that fits 64 bits. A negative zero, and a negative integer below the
range of signed 64-bit integers, is a floating-point number. -/
def integerNumber (negative : Bool) (significand : Nat) : Number :=
  if negative then
    if significand = 0 ∨ 0x8000000000000000 < significand then
      .real (-(UInt64.ofNat significand).toFloat)
    else .integer (-(significand : Int))
  else .integer significand

/-- Reads what follows the digits before the decimal point. `left` counts the digits that did not
fit into the significand. -/
def readAfterDigits (negative : Bool) (significand left : Nat) : Reader Number := fun text =>
  match text with
  | '.' :: rest => do
      let (value, rest) ← readFraction negative significand left rest
      .ok (.real value, rest)
  | 'e' :: rest | 'E' :: rest => do
      let (value, rest) ← readExponent negative significand left rest
      .ok (.real value, rest)
  | _ =>
      if left = 0 then .ok (integerNumber negative significand, text)
      else do
        let value ← realOfParts negative significand left
        .ok (.real value, text)

/-- Reads a number after its sign. A number does not start with a superfluous zero. -/
def readUnsigned (negative : Bool) : Reader Number
  | [] => .error .endInValue
  | '0' :: rest =>
      match rest with
      | char :: _ =>
          if char.isDigit then .error .invalidNumber else readAfterDigits negative 0 0 rest
      | [] => readAfterDigits negative 0 0 rest
  | char :: rest =>
      if char.isDigit then
        let digits := (char :: rest).takeWhile Char.isDigit
        let (significand, left) := absorb 0 digits
        readAfterDigits negative significand left.length (rest.dropWhile Char.isDigit)
      else .error .invalidNumber

/-- Reads a number. -/
def readNumber : Reader Number
  | '-' :: rest => readUnsigned true rest
  | text => readUnsigned false text

/-- Passes over the exponent of a number after the letter that announces it. -/
def skipExponent (text : List Char) : Except Fault (List Char) :=
  let digitsOnwards :=
    match text with
    | '+' :: rest | '-' :: rest => rest
    | _ => text
  match digitsOnwards with
  | char :: _ =>
      if char.isDigit then .ok (digitsOnwards.dropWhile Char.isDigit) else .error .invalidNumber
  | [] => .error .invalidNumber

/-- Passes over the digits after a decimal point, and an exponent, if one follows. -/
def skipFraction (text : List Char) : Except Fault (List Char) :=
  match text with
  | char :: _ =>
      if char.isDigit then
        match text.dropWhile Char.isDigit with
        | 'e' :: rest | 'E' :: rest => skipExponent rest
        | rest => .ok rest
      else .error .invalidNumber
  | [] => .error .invalidNumber

/-- Passes over what follows the digits before the decimal point. -/
def skipAfterDigits : List Char → Except Fault (List Char)
  | '.' :: rest => skipFraction rest
  | 'e' :: rest | 'E' :: rest => skipExponent rest
  | rest => .ok rest

/-- Passes over a number after its sign. -/
def skipUnsigned : List Char → Except Fault (List Char)
  | '0' :: rest =>
      match rest with
      | char :: _ => if char.isDigit then .error .invalidNumber else skipAfterDigits rest
      | [] => .ok []
  | char :: rest =>
      if char.isDigit then skipAfterDigits (rest.dropWhile Char.isDigit)
      else .error .invalidNumber
  | [] => .error .invalidNumber

/-- Passes over a number. -/
def skipNumber : List Char → Except Fault (List Char)
  | '-' :: rest => skipUnsigned rest
  | text => skipUnsigned text

end FontCatalog.Json
