import FontCatalog.Decimal.Integer
import FontCatalog.Text.Visible

/-!
# Faults of a JSON text

Why a text is not the JSON of what was asked for. A text can be malformed, it can end too soon, or
it can be JSON of another shape; the wording of every fault is fixed here.
-/

namespace FontCatalog.Json

/-- What a reader asks for. -/
inductive Expected where
  | pathText
  | text
  | signedInteger
  | unsignedInteger
  | byte
  | null
  | tenBytes
  | record
  | cidSystemInfo
deriving DecidableEq

/-- The phrase that names what was asked for. -/
def Expected.phrase : Expected → String
  | pathText => "path string"
  | text => "a string"
  | signedInteger => "i32"
  | unsignedInteger => "u32"
  | byte => "u8"
  | null => "unit"
  | tenBytes => "an array of length 10"
  | record => "struct FontRecord"
  | cidSystemInfo => "struct CidSystemInfo"

/-- What stands in the text instead. -/
inductive Found where
  | null
  | boolean (value : Bool)
  | integer (value : Int)
  /-- A number that is no integer, in its shortest spelling. -/
  | real (spelling : List Char)
  | text (value : List Char)
  | array
  | object
deriving DecidableEq

/-- The phrase that names what was found. -/
def Found.phrase : Found → String
  | null => "null"
  | boolean value => "boolean `" ++ (if value then "true" else "false") ++ "`"
  | integer value => "integer `" ++ String.ofList (Decimal.integer value) ++ "`"
  | real spelling => "floating point `" ++ String.ofList spelling ++ "`"
  | text value => "string " ++ String.ofList (Text.visible value)
  | array => "sequence"
  | object => "map"

/-- Why a text cannot be read. -/
inductive Fault where
  | expectedValue
  | expectedIdentifier
  | expectedColon
  | expectedCommaOrBracket
  | expectedCommaOrBrace
  | trailingComma
  | trailingCharacters
  | keyNotText
  | invalidNumber
  | numberOutOfRange
  | invalidEscape
  | loneSurrogate
  | unfinishedSurrogatePair
  | controlCharacter
  | endInValue
  | endInText
  | endInArray
  | endInObject
  | missingField (name : String)
  | duplicateField (name : String)
  | unknownFormat (name : List Char)
  | invalidType (found : Found) (expected : Expected)
  | invalidValue (value : Int) (expected : Expected)
  | invalidLength (length : Nat) (expected : String)
deriving DecidableEq

/-- The three classes of faults. -/
inductive FaultClass where
  | malformed
  | truncated
  | unsuitable
deriving DecidableEq

namespace Fault

/-- The class of a fault. -/
def faultClass : Fault → FaultClass
  | endInValue | endInText | endInArray | endInObject => .truncated
  | missingField _ | duplicateField _ | unknownFormat _ | invalidType _ _ | invalidValue _ _
  | invalidLength _ _ => .unsuitable
  | _ => .malformed

/-- The wording of a fault. -/
def message : Fault → String
  | expectedValue => "expected value"
  | expectedIdentifier => "expected ident"
  | expectedColon => "expected `:`"
  | expectedCommaOrBracket => "expected `,` or `]`"
  | expectedCommaOrBrace => "expected `,` or `\x7d`"
  | trailingComma => "trailing comma"
  | trailingCharacters => "trailing characters"
  | keyNotText => "key must be a string"
  | invalidNumber => "invalid number"
  | numberOutOfRange => "number out of range"
  | invalidEscape => "invalid escape"
  | loneSurrogate => "lone leading surrogate in hex escape"
  | unfinishedSurrogatePair => "unexpected end of hex escape"
  | controlCharacter => "control character (\\u0000-\\u001F) found while parsing a string"
  | endInValue => "EOF while parsing a value"
  | endInText => "EOF while parsing a string"
  | endInArray => "EOF while parsing a list"
  | endInObject => "EOF while parsing an object"
  | missingField name => "missing field `" ++ name ++ "`"
  | duplicateField name => "duplicate field `" ++ name ++ "`"
  | unknownFormat name =>
      "unknown variant `" ++ String.ofList name ++ "`, expected one of `PFB`, `TTF`, `OTF`"
  | invalidType found expected =>
      "invalid type: " ++ found.phrase ++ ", expected " ++ expected.phrase
  | invalidValue value expected =>
      "invalid value: integer `" ++ String.ofList (Decimal.integer value) ++ "`, expected " ++
        expected.phrase
  | invalidLength length expected =>
      "invalid length " ++ Decimal.text length ++ ", expected " ++ expected

end Fault

end FontCatalog.Json
