import FontCatalog.Json.Skip

/-!
# Readers of JSON values

A reader asks for a value of a certain shape and says what stands there when it is of another
shape. Arrays and objects are read element by element and member by member, so the first fault in
the order of the text is the one that is reported.
-/

namespace FontCatalog.Json

/-- How floating-point numbers are spelled in faults. -/
def realStyle : Decimal.NumeralStyle where
  lowestPlain := -5
  highestPlain := 15

/-- What a number is, for a fault. -/
def Number.found : Number → Found
  | .integer value => .integer value
  | .real value => .real (realStyle.text value)

/-- The fault of a value of another shape than the one asked for. -/
def unsuitable (expected : Expected) (text : List Char) : Fault :=
  let invalid (found : Found) : Fault := .invalidType found expected
  match text with
  | [] => .endInValue
  | 'n' :: rest =>
      match readWord "ull".toList rest with
      | .ok _ => invalid .null
      | .error fault => fault
  | 't' :: rest =>
      match readWord "rue".toList rest with
      | .ok _ => invalid (.boolean true)
      | .error fault => fault
  | 'f' :: rest =>
      match readWord "alse".toList rest with
      | .ok _ => invalid (.boolean false)
      | .error fault => fault
  | '"' :: rest =>
      match readString rest with
      | .ok (value, _) => invalid (.text value)
      | .error fault => fault
  | '[' :: _ => invalid .array
  | '\x7b' :: _ => invalid .object
  | char :: rest =>
      if char = '-' ∨ char.isDigit then
        match readNumber (char :: rest) with
        | .ok (number, _) => invalid number.found
        | .error fault => fault
      else .expectedValue

/-- Reads a string. -/
def readText (expected : Expected) : Reader (List Char) := fun text =>
  match skipBlanks text with
  | '"' :: rest => readString rest
  | rest => .error (unsuitable expected rest)

/-- Reads an integer from `lowest` to `highest`. -/
def readInteger (expected : Expected) (lowest highest : Int) : Reader Int := fun text =>
  match skipBlanks text with
  | [] => .error .endInValue
  | char :: rest =>
      if char = '-' ∨ char.isDigit then do
        let (number, others) ← readNumber (char :: rest)
        match number with
        | .integer value =>
            if lowest ≤ value ∧ value ≤ highest then .ok (value, others)
            else .error (.invalidValue value expected)
        | .real _ => .error (.invalidType number.found expected)
      else .error (unsuitable expected (char :: rest))

/-- Reads a signed 32-bit integer. -/
def readInt32 : Reader Int32 := fun text => do
  let (value, rest) ← readInteger .signedInteger (-0x80000000) 0x7FFFFFFF text
  .ok (Int32.ofInt value, rest)

/-- Reads an unsigned 32-bit integer. -/
def readUInt32 : Reader UInt32 := fun text => do
  let (value, rest) ← readInteger .unsignedInteger 0 0xFFFFFFFF text
  .ok (UInt32.ofNat value.toNat, rest)

/-- Reads a byte. -/
def readByte : Reader UInt8 := fun text => do
  let (value, rest) ← readInteger .byte 0 255 text
  .ok (UInt8.ofNat value.toNat, rest)

/-- Reads `null`. -/
def readNull : Reader Unit := fun text =>
  match skipBlanks text with
  | 'n' :: rest => do
      let others ← readWord "ull".toList rest
      .ok ((), others)
  | rest => .error (unsuitable .null rest)

/-- Reads a value that may be `null`. -/
def readOptional {α : Type} (reader : Reader α) : Reader (Option α) := fun text =>
  match skipBlanks text with
  | 'n' :: rest => do
      let others ← readWord "ull".toList rest
      .ok (none, others)
  | rest => do
      let (value, others) ← reader rest
      .ok (some value, others)

/-! ## Arrays -/

/-- Moves on to the next element of an array and says whether there is one. -/
def nextElement (isFirst : Bool) : Reader Bool := fun text =>
  match skipBlanks text with
  | [] => .error .endInArray
  | ']' :: rest => .ok (false, ']' :: rest)
  | char :: rest =>
      if isFirst then .ok (true, char :: rest)
      else if char = ',' then
        match skipBlanks rest with
        | [] => .error .endInValue
        | ']' :: _ => .error .trailingComma
        | others => .ok (true, others)
      else .error .expectedCommaOrBracket

/-- Reads the next element of an array, if there is one. -/
def readElement? {α : Type} (reader : Reader α) (isFirst : Bool) : Reader (Option α) :=
  fun text => do
    let (isThere, rest) ← nextElement isFirst text
    if isThere then
      let (value, others) ← reader rest
      .ok (some value, others)
    else .ok (none, rest)

/-- Reads the end of an array. -/
def endArray (text : List Char) : Except Fault (List Char) :=
  match skipBlanks text with
  | [] => .error .endInArray
  | ']' :: rest => .ok rest
  | ',' :: rest =>
      match skipBlanks rest with
      | ']' :: _ => .error .trailingComma
      | _ => .error .trailingCharacters
  | _ => .error .trailingCharacters

/-- Reads the elements of an array up to its end. Every element takes a character off the text;
`fuel` bounds their number. -/
def readElements {α : Type} (reader : Reader α) : Nat → Bool → Reader (List α)
  | 0, _, _ => .error .endInArray
  | fuel + 1, isFirst, text => do
      let (element, rest) ← readElement? reader isFirst text
      match element with
      | none => .ok ([], rest)
      | some value =>
          let (values, others) ← readElements reader fuel false rest
          .ok (value :: values, others)

/-- Reads the elements of an array with a fixed number of elements, of which `found` have been
read. -/
def readExactly {α : Type} (reader : Reader α) (expected : String) (found : Nat) :
    Nat → Reader (List α)
  | 0, text => .ok ([], text)
  | count + 1, text => do
      let (element, rest) ← readElement? reader (found = 0) text
      match element with
      | none => .error (.invalidLength found expected)
      | some value =>
          let (values, others) ← readExactly reader expected (found + 1) count rest
          .ok (value :: values, others)

/-! ## Objects -/

/-- Moves on to the next member of an object and reads its key; `none` at the end. -/
def readKey? (isFirst : Bool) : Reader (Option (List Char)) := fun text =>
  let key (rest : List Char) : Except Fault (Option (List Char) × List Char) := do
    let (name, others) ← readString rest
    .ok (some name, others)
  match skipBlanks text with
  | [] => .error .endInObject
  | '\x7d' :: rest => .ok (none, '\x7d' :: rest)
  | '"' :: rest => if isFirst then key rest else .error .expectedCommaOrBrace
  | char :: rest =>
      if isFirst then .error .keyNotText
      else if char = ',' then
        match skipBlanks rest with
        | [] => .error .endInValue
        | '"' :: others => key others
        | '\x7d' :: _ => .error .trailingComma
        | _ => .error .keyNotText
      else .error .expectedCommaOrBrace

/-- Reads the key of an object's first member, which has to be there. Even where the key names a
value it is read as a key: that it is no string, or that the text ends, is a fault of the object. -/
def readFirstKey : Reader (List Char) := fun text => do
  let (key, rest) ← readKey? true text
  match key with
  | some name => .ok (name, rest)
  | none => .error .expectedValue

/-- Reads the end of an object. -/
def endObject (text : List Char) : Except Fault (List Char) :=
  match skipBlanks text with
  | [] => .error .endInObject
  | '\x7d' :: rest => .ok rest
  | ',' :: _ => .error .trailingComma
  | _ => .error .trailingCharacters

/-- Reads the members of an object up to its end. `readMember` takes in the member with a given
key, from after the key. Every member takes a character off the text; `fuel` bounds their
number. -/
def readMembers {σ : Type} (readMember : σ → List Char → Reader σ) : Nat → Bool → σ → Reader σ
  | 0, _, _, _ => .error .endInObject
  | fuel + 1, isFirst, state, text => do
      let (key, rest) ← readKey? isFirst text
      match key with
      | none => .ok (state, rest)
      | some name =>
          let (next, others) ← readMember state name rest
          readMembers readMember fuel false next others

/-- Reads the value of a member that may occur once, from after its key. -/
def readOnce {α : Type} (name : String) (held : Option α) (reader : Reader α) : Reader α :=
  fun text =>
    if held.isSome then .error (.duplicateField name)
    else do
      let rest ← readColon text
      reader rest

/-- Passes over a member that is not asked for, from after its key. -/
def skipMember (text : List Char) : Except Fault (List Char) := do
  let rest ← readColon text
  skipValue rest

/-- Reads a text that holds nothing but one value. -/
def readWhole {α : Type} (reader : Reader α) (text : List Char) : Except Fault α := do
  let (value, rest) ← reader text
  if skipBlanks rest = [] then .ok value else .error .trailingCharacters

end FontCatalog.Json
