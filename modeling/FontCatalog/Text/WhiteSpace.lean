/-!
# White space

The characters with the Unicode property White_Space, and the removal of such characters, or of
any other class of characters, from the two ends of a text.
-/

namespace FontCatalog.Text

/-- The character has the Unicode property White_Space. -/
def isWhiteSpace (char : Char) : Bool :=
  let code := char.toNat
  (9 ≤ code && code ≤ 13) || code == 0x20 || code == 0x85 || code == 0xA0 || code == 0x1680 ||
    (0x2000 ≤ code && code ≤ 0x200A) || code == 0x2028 || code == 0x2029 || code == 0x202F ||
    code == 0x205F || code == 0x3000

/-- The text without the characters of a class at its end. -/
def trimEndBy (isBlank : Char → Bool) (text : List Char) : List Char :=
  (text.reverse.dropWhile isBlank).reverse

/-- The text without the characters of a class at its start and at its end. -/
def trimBy (isBlank : Char → Bool) (text : List Char) : List Char :=
  trimEndBy isBlank (text.dropWhile isBlank)

/-- The text without white space at its start. -/
def trimStart (text : List Char) : List Char :=
  text.dropWhile isWhiteSpace

/-- The text without white space at its start and at its end. -/
def trim (text : List Char) : List Char :=
  trimBy isWhiteSpace text

/-- The text consists of white space only. -/
def isBlank (text : List Char) : Bool :=
  text.all isWhiteSpace

end FontCatalog.Text
