import FontCatalog.Json.Scanner

/-!
# Passing over JSON values

A reader that is not interested in a value passes over it. The values that enclose the place where
it is are kept on a stack, and what may come next is kept beside it, so that the value is passed
over in a single walk along the text.
-/

namespace FontCatalog.Json

/-- A value whose end has not been reached. -/
inductive Enclosure where
  | array
  | object
deriving DecidableEq

/-- What may come next inside a value. -/
inductive Due where
  /-- A value. -/
  | value
  /-- The first element of an array, or its end. -/
  | firstElement
  /-- The first member of an object, or its end. -/
  | firstMember
  /-- A member of an object. -/
  | member
  /-- A comma, or the end of the enclosing value. -/
  | separator

/-- Reads a colon. -/
def readColon (text : List Char) : Except Fault (List Char) :=
  match skipBlanks text with
  | [] => .error .endInObject
  | ':' :: rest => .ok rest
  | _ => .error .expectedColon

/-- Walks on until the outermost value has ended. The walk ends because every second step takes a
character off the text; `fuel` bounds the number of steps. -/
def skipOn : Nat → Due → List Enclosure → List Char → Except Fault (List Char)
  | 0, _, _, _ => .error .endInValue
  | fuel + 1, due, stack, text =>
      let close (outer : List Enclosure) (rest : List Char) : Except Fault (List Char) :=
        if outer = [] then .ok rest else skipOn fuel .separator outer rest
      match due with
      | .value =>
          match skipBlanks text with
          | [] => .error .endInValue
          | '[' :: rest => skipOn fuel .firstElement (.array :: stack) rest
          | '\x7b' :: rest => skipOn fuel .firstMember (.object :: stack) rest
          | 'n' :: rest => do close stack (← readWord "ull".toList rest)
          | 't' :: rest => do close stack (← readWord "rue".toList rest)
          | 'f' :: rest => do close stack (← readWord "alse".toList rest)
          | '"' :: rest => do close stack (← skipString rest)
          | char :: rest =>
              if char = '-' ∨ char.isDigit then do close stack (← skipNumber (char :: rest))
              else .error .expectedValue
      | .firstElement =>
          match skipBlanks text with
          | [] => .error .endInArray
          | ']' :: rest => close stack.tail rest
          | rest => skipOn fuel .value stack rest
      | .firstMember =>
          match skipBlanks text with
          | [] => .error .endInObject
          | '\x7d' :: rest => close stack.tail rest
          | rest => skipOn fuel .member stack rest
      | .member =>
          match skipBlanks text with
          | [] => .error .endInObject
          | '"' :: rest => do
              let afterKey ← skipString rest
              let afterColon ← readColon afterKey
              skipOn fuel .value stack afterColon
          | _ => .error .keyNotText
      | .separator =>
          match stack, skipBlanks text with
          | [], rest => .ok rest
          | .array :: _, [] => .error .endInArray
          | .array :: _, ',' :: rest => skipOn fuel .value stack rest
          | .array :: outer, ']' :: rest => close outer rest
          | .array :: _, _ => .error .expectedCommaOrBracket
          | .object :: _, [] => .error .endInObject
          | .object :: _, ',' :: rest => skipOn fuel .member stack rest
          | .object :: outer, '\x7d' :: rest => close outer rest
          | .object :: _, _ => .error .expectedCommaOrBrace

/-- Passes over one value. -/
def skipValue (text : List Char) : Except Fault (List Char) :=
  skipOn (2 * text.length + 2) .value [] text

end FontCatalog.Json
