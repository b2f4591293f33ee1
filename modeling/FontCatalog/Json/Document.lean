import FontCatalog.Decimal.Integer

/-!
# Writing JSON

A document is what is written for a value, in a given style and at a given depth. It is a list of
fragments: texts, and possibly the fault that a value has no JSON text, at which writing ends.
-/

namespace FontCatalog.Json

/-- A fragment of a document. -/
inductive Fragment where
  | text (chars : List Char)
  /-- A path that is not UTF-8 has no JSON text. -/
  | pathNotText
deriving DecidableEq

/-- How a document is spaced. -/
inductive Style where
  /-- Without any blanks. -/
  | compact
  /-- Every element and member on a line of its own, indented by two spaces for each level. -/
  | indented
deriving DecidableEq

namespace Style

/-- The start of a line at a depth. -/
def lineStart (style : Style) (depth : Nat) : List Char :=
  match style with
  | compact => []
  | indented => '\n' :: List.replicate (2 * depth) ' '

/-- What stands between the key and the value of a member. -/
def colon : Style → List Char
  | compact => [':']
  | indented => [':', ' ']

end Style

/-- What is written for a value, by style and depth. -/
def Document : Type :=
  Style → Nat → List Fragment

/-- A lower-case hexadecimal digit. -/
def hexDigit (value : Nat) : Char :=
  Nat.digitChar value

/-- A character inside a string: quotes, backslashes and control characters are escaped. -/
def escapeChar (char : Char) : List Char :=
  if char = '"' then ['\\', '"']
  else if char = '\\' then ['\\', '\\']
  else if char = '\x08' then ['\\', 'b']
  else if char = '\x0C' then ['\\', 'f']
  else if char = '\n' then ['\\', 'n']
  else if char = '\r' then ['\\', 'r']
  else if char = '\t' then ['\\', 't']
  else if char.toNat < 0x20 then
    ['\\', 'u', '0', '0', hexDigit (char.toNat / 16), hexDigit (char.toNat % 16)]
  else [char]

/-- A text as a JSON string. -/
def quote (text : List Char) : List Char :=
  '"' :: text.flatMap escapeChar ++ ['"']

namespace Document

/-- A value with a fixed text. -/
def literal (chars : List Char) : Document := fun _ _ =>
  [.text chars]

/-- The value `null`. -/
def null : Document :=
  literal "null".toList

/-- An integer. -/
def integer (value : Int) : Document :=
  literal (Decimal.integer value)

/-- A string. -/
def string (text : List Char) : Document :=
  literal (quote text)

/-- A string, if there is one; the fault of a path that is no text otherwise. -/
def path (text : Option (List Char)) : Document := fun _ _ =>
  match text with
  | some chars => [.text (quote chars)]
  | none => [.pathNotText]

/-- An optional value, `null` when it is absent. -/
def optional {α : Type} (document : α → Document) : Option α → Document
  | some value => document value
  | none => null

/-- The elements of an array, each after its separator. -/
def elements (style : Style) (depth : Nat) (isFirst : Bool) : List Document → List Fragment
  | [] => []
  | element :: rest =>
      .text ((if isFirst then [] else [',']) ++ style.lineStart (depth + 1)) ::
        element style (depth + 1) ++ elements style depth false rest

/-- An array. -/
def array (items : List Document) : Document := fun style depth =>
  if items.isEmpty then [.text ['[', ']']]
  else
    .text ['['] :: elements style depth true items ++ [.text (style.lineStart depth ++ [']'])]

/-- The members of an object, each after its separator. -/
def members (style : Style) (depth : Nat) (isFirst : Bool) :
    List (String × Document) → List Fragment
  | [] => []
  | (key, value) :: rest =>
      .text ((if isFirst then [] else [',']) ++ style.lineStart (depth + 1) ++ quote key.toList ++
        style.colon) ::
        value style (depth + 1) ++ members style depth false rest

/-- An object with at least one member. -/
def object (fields : List (String × Document)) : Document := fun style depth =>
  .text ['\x7b'] :: members style depth true fields ++
    [.text (style.lineStart depth ++ ['\x7d'])]

end Document

end FontCatalog.Json
