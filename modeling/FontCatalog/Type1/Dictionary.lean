import FontCatalog.Text.WhiteSpace

/-!
# Entries of the font dictionary

The clear text of a Type 1 font is a PostScript program, of which only a few dictionary entries
are read: a key such as `/FontName`, white space, and then a literal name or a string. A key counts
only where white space follows it, so `/FontName` is not found in `/FontNameX`.
-/

namespace FontCatalog.Type1.Dictionary

/-- A key by its characters. There is at least one, since the search for an empty key would stay
where it is. -/
structure Key where
  first : Char
  others : List Char
deriving DecidableEq

namespace Key

/-- The characters of a key. -/
def chars (key : Key) : List Char :=
  key.first :: key.others

/-- The key `/name`. -/
def ofName (name : String) : Key :=
  ⟨'/', name.toList⟩

/-- The key of the PostScript name. -/
def fontName : Key := ofName "FontName"

/-- The key of the family name. -/
def familyName : Key := ofName "FamilyName"

/-- The key of the full name. -/
def fullName : Key := ofName "FullName"

/-- The key of the weight. -/
def weight : Key := ofName "Weight"

end Key

/-- The text after the first place where `key` stands. -/
def afterFirst? (key : List Char) : List Char → Option (List Char)
  | [] => if key = [] then some [] else none
  | char :: rest =>
      if key.isPrefixOf (char :: rest) then some ((char :: rest).drop key.length)
      else afterFirst? key rest

theorem length_afterFirst? {key text rest : List Char} (found : afterFirst? key text = some rest) :
    rest.length + key.length ≤ text.length := by
  induction text with
  | nil =>
      unfold afterFirst? at found
      split at found
      · simp_all
      · cases found
  | cons char others ih =>
      unfold afterFirst? at found
      split at found
      · rename_i starts
        cases found
        have := (List.isPrefixOf_iff_prefix.mp starts).length_le
        simp only [List.length_drop]
        omega
      · have := ih found
        simp only [List.length_cons]
        omega

/-- The text after the first whole key, without the white space in front of it. A place where
other characters follow the key is passed over. -/
def afterKey? (key : Key) (text : List Char) : Option (List Char) :=
  match _found : afterFirst? key.chars text with
  | none => none
  | some rest =>
      match rest with
      | [] => none
      | char :: others =>
          if Text.isWhiteSpace char then some (Text.trimStart (char :: others))
          else afterKey? key (char :: others)
termination_by text.length
decreasing_by
  have := length_afterFirst? _found
  simp only [Key.chars, List.length_cons] at *
  omega

/-- A delimiter of PostScript tokens. -/
def isDelimiter (char : Char) : Bool :=
  "/()[]\x7b\x7d<>%".toList.contains char

/-- A character of a literal name. -/
def isNameChar (char : Char) : Bool :=
  !Text.isWhiteSpace char && !isDelimiter char

/-- The literal name that a text starts with, after its slash. -/
def literalName? : List Char → Option (List Char)
  | '/' :: rest =>
      let name := rest.takeWhile isNameChar
      if name = [] then none else some name
  | _ => none

/-- The rest of a string inside `depth + 1` open parentheses. A backslash takes the character
after it as it is, and nested parentheses stay in the string. -/
def stringBody? (depth : Nat) : List Char → Option (List Char)
  | [] => none
  | '\\' :: [] => none
  | '\\' :: escaped :: rest => (stringBody? depth rest).map (escaped :: ·)
  | '(' :: rest => (stringBody? (depth + 1) rest).map ('(' :: ·)
  | ')' :: rest =>
      match depth with
      | 0 => some []
      | depth + 1 => (stringBody? depth rest).map (')' :: ·)
  | char :: rest => (stringBody? depth rest).map (char :: ·)

/-- The string that a text starts with, after its opening parenthesis. -/
def string? : List Char → Option (List Char)
  | '(' :: rest => stringBody? 0 rest
  | _ => none

/-- The literal name under a key. -/
def nameUnder? (key : Key) (text : List Char) : Option String := do
  let rest ← afterKey? key text
  let value ← literalName? rest
  pure (String.ofList value)

/-- The string under a key, without white space around it. -/
def stringUnder? (key : Key) (text : List Char) : Option String := do
  let rest ← afterKey? key text
  let value ← string? rest
  pure (String.ofList (Text.trim value))

end FontCatalog.Type1.Dictionary
