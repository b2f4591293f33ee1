import FontCatalog.Proofs.Utf8RoundTrip
import FontCatalog.Type1.Font
import Mathlib.Data.List.TakeWhile

/-!
# The search for a key

A key stands whole at a place of a text if it stands there and white space follows it. The search
goes from one place where the key stands to the next one behind it, and a key whose first character
does not come again in it has no second place within the first. So the search misses no whole key:
it ends at the first of them, or finds that there is none. The name of a Type 1 font is read
behind the first whole `/FontName` of its clear text.
-/

namespace FontCatalog.Type1

namespace Dictionary

namespace Key

variable {key : Key} {text after other : List Char} {place start : Nat}

/-- The key stands at a place of the text, in front of what comes after it. -/
def StandsAt (key : Key) (text : List Char) (place : Nat) (after : List Char) : Prop :=
  text.drop place = key.chars ++ after

/-- The key stands there, and white space follows it. -/
def WholeAt (key : Key) (text : List Char) (place : Nat) (after : List Char) : Prop :=
  key.StandsAt text place after ∧ ∃ blank ∈ after.head?, Text.isWhiteSpace blank = true

/-- The key stands there as a whole word, and at no earlier place. -/
structure FirstWholeAt (key : Key) (text : List Char) (place : Nat) (after : List Char) : Prop where
  whole : key.WholeAt text place after
  first : ∀ earlier < place, ∀ other, ¬key.WholeAt text earlier other

/-! ## Places of a key -/

theorem standsAt_cons_succ {char : Char} :
    key.StandsAt (char :: text) (place + 1) after ↔ key.StandsAt text place after := by
  simp only [StandsAt, List.drop_succ_cons]

theorem wholeAt_drop_iff :
    key.WholeAt (text.drop start) place after ↔ key.WholeAt text (start + place) after := by
  simp only [WholeAt, StandsAt, List.drop_drop]

theorem not_standsAt_nil : ¬key.StandsAt [] place after := by
  simp [StandsAt, chars]

theorem StandsAt.after_eq (stands : key.StandsAt text place after)
    (again : key.StandsAt text place other) : after = other := by
  simp only [StandsAt] at stands again
  rw [stands] at again
  exact List.append_cancel_left again

theorem StandsAt.drop_eq (stands : key.StandsAt text place after) :
    text.drop (place + key.chars.length) = after := by
  simp only [StandsAt] at stands
  rw [← List.drop_drop, stands, List.drop_left]

/-- Within one place of the key there is no other, since it would need the first character. -/
theorem StandsAt.not_standsAt_within (apart : key.first ∉ key.others)
    (stands : key.StandsAt text place after) {skipped : Nat} (behind : place < skipped)
    (within : skipped < place + key.chars.length) : ¬key.StandsAt text skipped other := by
  intro again
  apply apart
  have isFirst : text[skipped]? = some key.first := by
    have head := congrArg (·[0]?) again
    simpa [chars] using head
  obtain ⟨distance, rfl⟩ := Nat.exists_eq_add_of_lt behind
  have inside : distance < key.others.length := by
    simp only [chars, List.length_cons] at within
    omega
  have isOther : text[place + distance + 1]? = key.others[distance]? := by
    have same := congrArg (·[distance + 1]?) stands
    simpa [chars, List.getElem?_append_left inside, Nat.add_assoc] using same
  rw [isOther] at isFirst
  exact List.mem_of_getElem? isFirst

/-- The search may go on behind a place where the key does not stand whole. -/
theorem StandsAt.not_wholeAt_before (apart : key.first ∉ key.others)
    (stands : key.StandsAt text place after)
    (first : ∀ earlier < place, ∀ other, ¬key.StandsAt text earlier other)
    (missed : ¬key.WholeAt text place after) {skipped : Nat}
    (passed : skipped < place + key.chars.length) : ¬key.WholeAt text skipped other := by
  intro whole
  rcases Nat.lt_trichotomy skipped place with isBefore | rfl | isBehind
  · exact first skipped isBefore other whole.1
  · rw [← stands.after_eq whole.1] at whole
    exact missed whole
  · exact stands.not_standsAt_within apart isBehind passed whole.1

theorem place_eq_of_first {Holds : Nat → List Char → Prop} {otherPlace : Nat}
    (here : Holds place after) (first : ∀ earlier < place, ∀ other, ¬Holds earlier other)
    (there : Holds otherPlace other)
    (firstThere : ∀ earlier < otherPlace, ∀ other, ¬Holds earlier other) : place = otherPlace := by
  apply Nat.le_antisymm
  · apply Nat.le_of_not_lt
    intro isBehind
    exact first otherPlace isBehind other there
  · apply Nat.le_of_not_lt
    intro isBefore
    exact firstThere place isBefore after here

theorem StandsAt.first_unique {otherPlace : Nat} (stands : key.StandsAt text place after)
    (first : ∀ earlier < place, ∀ other, ¬key.StandsAt text earlier other)
    (again : key.StandsAt text otherPlace other)
    (firstAgain : ∀ earlier < otherPlace, ∀ other, ¬key.StandsAt text earlier other) :
    place = otherPlace ∧ after = other := by
  obtain rfl := place_eq_of_first stands first again firstAgain
  exact ⟨rfl, stands.after_eq again⟩

theorem FirstWholeAt.unique {otherPlace : Nat} (first : key.FirstWholeAt text place after)
    (again : key.FirstWholeAt text otherPlace other) : place = otherPlace ∧ after = other := by
  obtain rfl := place_eq_of_first first.whole first.first again.whole again.first
  exact ⟨rfl, first.whole.1.after_eq again.whole.1⟩

/-! ## What is behind a place of a key -/

theorem StandsAt.length_lt (stands : key.StandsAt text place after) :
    after.length < text.length := by
  have sameLength := congrArg List.length stands
  simp only [List.length_drop, List.length_append, chars, List.length_cons] at sameLength
  omega

theorem StandsAt.wholeAt_behind_iff (stands : key.StandsAt text place after) {distance : Nat} :
    key.WholeAt after distance other ↔
      key.WholeAt text (place + key.chars.length + distance) other := by
  rw [← stands.drop_eq, wholeAt_drop_iff]

/-- If no whole key begins up to the end of a key, all of them are behind it. -/
theorem StandsAt.exists_wholeAt_behind (stands : key.StandsAt text place after)
    (passed : ∀ skipped < place + key.chars.length, ∀ other, ¬key.WholeAt text skipped other)
    {wholePlace : Nat} (whole : key.WholeAt text wholePlace other) :
    ∃ distance, wholePlace = place + key.chars.length + distance ∧
      key.WholeAt after distance other := by
  have isBehind : place + key.chars.length ≤ wholePlace := by
    apply Nat.le_of_not_lt
    intro isSkipped
    exact passed wholePlace isSkipped other whole
  obtain ⟨distance, rfl⟩ := Nat.exists_eq_add_of_le isBehind
  exact ⟨distance, rfl, stands.wholeAt_behind_iff.mpr whole⟩

theorem FirstWholeAt.of_behind (stands : key.StandsAt text place after)
    (passed : ∀ skipped < place + key.chars.length, ∀ other, ¬key.WholeAt text skipped other)
    {later : Nat} (firstLater : key.FirstWholeAt after later other) :
    key.FirstWholeAt text (place + key.chars.length + later) other := by
  refine ⟨stands.wholeAt_behind_iff.mp firstLater.whole, ?_⟩
  intro earlier isEarlier another whole
  rcases stands.exists_wholeAt_behind passed whole with ⟨distance, rfl, behind⟩
  exact firstLater.first distance (by omega) another behind

/-- A key that stands within a piece of the text is a part of that piece. -/
theorem StandsAt.infix_of_le {before rest : List Char}
    (stands : key.StandsAt (before ++ rest) place after)
    (inside : place + key.chars.length ≤ before.length) : key.chars <:+: before := by
  have begins : key.chars <+: before.drop place := by
    rw [StandsAt, List.drop_append_of_le_length (by omega)] at stands
    apply List.prefix_of_prefix_length_le ⟨after, stands.symm⟩ (List.prefix_append _ _)
    rw [List.length_drop]
    omega
  exact begins.isInfix.trans (List.drop_suffix place before).isInfix

end Key

/-! ## The search -/

variable {key : Key} {text after rest : List Char} {place : Nat}

theorem exists_standsAt_of_afterFirst? (found : afterFirst? key.chars text = some rest) :
    ∃ place, key.StandsAt text place rest ∧
      ∀ earlier < place, ∀ other, ¬key.StandsAt text earlier other := by
  induction text with
  | nil => simp [afterFirst?, Key.chars] at found
  | cons char text ih =>
      simp only [afterFirst?] at found
      split at found
      · rename_i starts
        cases found
        refine ⟨0, ?_, by simp⟩
        apply Eq.symm
        exact List.prefix_iff_eq_append.mp (List.isPrefixOf_iff_prefix.mp starts)
      · rename_i starts
        rcases ih found with ⟨place, stands, first⟩
        refine ⟨place + 1, Key.standsAt_cons_succ.mpr stands, ?_⟩
        intro earlier isEarlier other
        cases earlier with
        | zero =>
            intro standsHere
            apply starts
            rw [List.isPrefixOf_iff_prefix]
            exact ⟨other, Eq.symm standsHere⟩
        | succ earlier =>
            rw [Key.standsAt_cons_succ]
            exact first earlier (by omega) other

theorem not_standsAt_of_afterFirst? (absent : afterFirst? key.chars text = none) :
    ¬key.StandsAt text place after := by
  induction text generalizing place with
  | nil => exact Key.not_standsAt_nil
  | cons char text ih =>
      simp only [afterFirst?] at absent
      split at absent
      · cases absent
      · rename_i starts
        cases place with
        | zero =>
            intro standsHere
            apply starts
            rw [List.isPrefixOf_iff_prefix]
            exact ⟨after, Eq.symm standsHere⟩
        | succ place =>
            rw [Key.standsAt_cons_succ]
            exact ih absent

/-- What one turn of the search does: it ends without a key, ends at a whole key, or goes on behind
a key that is not whole. -/
theorem afterKey?_cases (key : Key) (text : List Char) :
    (afterKey? key text = none ∧ ∀ place after, ¬key.StandsAt text place after) ∨
      ∃ place after, key.StandsAt text place after ∧
        (∀ earlier < place, ∀ other, ¬key.StandsAt text earlier other) ∧
        (key.WholeAt text place after ∧ afterKey? key text = some (Text.trimStart after) ∨
          ¬key.WholeAt text place after ∧ afterKey? key text = afterKey? key after) := by
  cases found : afterFirst? key.chars text with
  | none =>
      left
      constructor
      · rw [afterKey?]
        split
        · rfl
        · simp_all
      · intro place after
        exact not_standsAt_of_afterFirst? found
  | some rest =>
      right
      rcases exists_standsAt_of_afterFirst? found with ⟨place, stands, first⟩
      refine ⟨place, rest, stands, first, ?_⟩
      rw [afterKey?]
      split
      · simp_all
      · rename_i sameRest foundRest
        rw [found] at foundRest
        cases foundRest
        cases rest with
        | nil =>
            right
            constructor
            · rintro ⟨-, blank, inside, -⟩
              cases inside
            · rw [afterKey?]
              simp [afterFirst?, Key.chars]
        | cons char others =>
            by_cases isBlank : Text.isWhiteSpace char = true
            · left
              exact ⟨⟨stands, char, rfl, isBlank⟩, if_pos isBlank⟩
            · right
              refine ⟨?_, if_neg isBlank⟩
              rintro ⟨-, blank, inside, blankIsBlank⟩
              cases inside
              exact isBlank blankIsBlank

/-- What the whole search comes to. -/
theorem firstWholeAt_or_absent (apart : key.first ∉ key.others) (text : List Char) :
    (∃ place after, key.FirstWholeAt text place after ∧
        afterKey? key text = some (Text.trimStart after)) ∨
      afterKey? key text = none ∧ ∀ place after, ¬key.WholeAt text place after := by
  -- The text behind a place of the key is shorter, as a key is not empty.
  induction size : text.length using Nat.strong_induction_on generalizing text with
  | h length ih =>
      rcases afterKey?_cases key text with
        ⟨absent, nowhere⟩ | ⟨place, after, stands, first, ⟨whole, found⟩ | ⟨missed, goesOn⟩⟩
      · right
        refine ⟨absent, ?_⟩
        intro place after whole
        exact nowhere place after whole.1
      · left
        refine ⟨place, after, ⟨whole, ?_⟩, found⟩
        intro earlier isEarlier other isWhole
        exact first earlier isEarlier other isWhole.1
      · have passed : ∀ skipped < place + key.chars.length, ∀ other,
            ¬key.WholeAt text skipped other := by
          intro skipped isSkipped other
          exact stands.not_wholeAt_before apart first missed isSkipped
        rw [goesOn]
        rcases ih after.length (size ▸ stands.length_lt) after rfl with
          ⟨later, rest, firstLater, found⟩ | ⟨absent, nowhere⟩
        · left
          exact ⟨_, rest, .of_behind stands passed firstLater, found⟩
        · right
          refine ⟨absent, ?_⟩
          intro wholePlace other whole
          rcases stands.exists_wholeAt_behind passed whole with ⟨distance, -, behind⟩
          exact nowhere distance other behind

theorem afterKey?_eq_some_iff (apart : key.first ∉ key.others) :
    afterKey? key text = some rest ↔
      ∃ place after, key.FirstWholeAt text place after ∧ rest = Text.trimStart after := by
  rcases firstWholeAt_or_absent apart text with
    ⟨place, after, firstWhole, found⟩ | ⟨absent, nowhere⟩
  · rw [found, Option.some.injEq]
    constructor
    · rintro rfl
      exact ⟨place, after, firstWhole, rfl⟩
    · rintro ⟨otherPlace, other, again, rfl⟩
      rw [(firstWhole.unique again).2]
  · rw [absent]
    constructor
    · intro impossible
      cases impossible
    · rintro ⟨place, after, firstWhole, -⟩
      exact absurd firstWhole.whole (nowhere place after)

theorem afterKey?_eq_none_iff (apart : key.first ∉ key.others) :
    afterKey? key text = none ↔ ∀ place after, ¬key.WholeAt text place after := by
  rcases firstWholeAt_or_absent apart text with
    ⟨place, after, firstWhole, found⟩ | ⟨absent, nowhere⟩
  · rw [found]
    constructor
    · intro impossible
      cases impossible
    · intro nowhere
      exact absurd firstWhole.whole (nowhere place after)
  · exact iff_of_true absent nowhere

/-- Behind a text without the key, the key stands first where it is put. -/
theorem Key.firstWholeAt_behind {before : List Char} {blank : Char}
    (apart : key.first ∉ key.others) (free : ¬key.chars <:+: before)
    (isBlank : Text.isWhiteSpace blank = true) :
    key.FirstWholeAt (before ++ key.chars ++ blank :: after) before.length (blank :: after) := by
  have stands : key.StandsAt (before ++ key.chars ++ blank :: after) before.length
      (blank :: after) := by
    rw [StandsAt, List.append_assoc, List.drop_left]
  refine ⟨⟨stands, blank, rfl, isBlank⟩, ?_⟩
  intro earlier isEarlier other whole
  by_cases overlaps : before.length < earlier + key.chars.length
  · exact whole.1.not_standsAt_within apart isEarlier overlaps stands
  · apply free
    have standsThere := whole.1
    rw [List.append_assoc] at standsThere
    exact standsThere.infix_of_le (Nat.le_of_not_lt overlaps)

/-- The search finds the first place where the key stands whole. It may pass over a place where the
key does not, since no whole key begins there or within it. -/
structure FindsFirstWhole (key : Key) (text : List Char) : Prop where
  eq_some_iff : ∀ rest, afterKey? key text = some rest ↔
    ∃ place after, key.FirstWholeAt text place after ∧ rest = Text.trimStart after
  eq_none_iff : afterKey? key text = none ↔ ∀ place after, ¬key.WholeAt text place after
  passes : ∀ {place after}, key.StandsAt text place after →
    (∀ earlier < place, ∀ other, ¬key.StandsAt text earlier other) →
    ¬key.WholeAt text place after →
    afterKey? key text = afterKey? key (text.drop (place + key.chars.length)) ∧
      ∀ skipped < place + key.chars.length, ∀ other, ¬key.WholeAt text skipped other

theorem findsFirstWhole (apart : key.first ∉ key.others) : FindsFirstWhole key text where
  eq_some_iff _ := afterKey?_eq_some_iff apart
  eq_none_iff := afterKey?_eq_none_iff apart
  passes := by
    intro place after stands first missed
    constructor
    · rw [stands.drop_eq]
      rcases afterKey?_cases key text with
        ⟨-, nowhere⟩ | ⟨other, rest, standsThere, firstThere, turn⟩
      · exact absurd stands (nowhere place after)
      · rcases stands.first_unique first standsThere firstThere with ⟨rfl, rfl⟩
        rcases turn with ⟨whole, -⟩ | ⟨-, goesOn⟩
        · exact absurd whole missed
        · exact goesOn
    · intro skipped isSkipped other
      exact stands.not_wholeAt_before apart first missed isSkipped

/-- A key that overlaps itself may be missed: this one stands whole at the place 1. -/
example : afterKey? ⟨'a', ['a']⟩ "aaa b".toList = none := by
  decide +kernel

/-! ## Names -/

/-- The text starts with a literal name, which is as long as it can be. -/
structure StartsWithName (text name rest : List Char) : Prop where
  text_eq : text = '/' :: (name ++ rest)
  name_ne_nil : name ≠ []
  isNameChar : ∀ char ∈ name, isNameChar char = true
  longest : ∀ char ∈ rest.head?, Dictionary.isNameChar char = false

theorem literalName?_eq_some_iff {name : List Char} :
    literalName? text = some name ↔ ∃ rest, StartsWithName text name rest := by
  constructor
  · intro found
    simp only [literalName?] at found
    split at found
    · rename_i text
      split at found
      · cases found
      · rename_i notEmpty
        cases found
        refine ⟨text.dropWhile Dictionary.isNameChar, ⟨?_, notEmpty, ?_, ?_⟩⟩
        · rw [List.takeWhile_append_dropWhile]
        · intro char inside
          exact List.mem_takeWhile_imp inside
        · intro char isHead
          have notNameChar := List.head?_dropWhile_not Dictionary.isNameChar text
          rw [Option.mem_def.mp isHead] at notNameChar
          simpa using notNameChar
    · cases found
  · rintro ⟨rest, rfl, notEmpty, areNameChars, longest⟩
    have noMore : rest.takeWhile Dictionary.isNameChar = [] := by
      cases rest with
      | nil => rfl
      | cons char rest => simp [longest char rfl]
    have isName : (name ++ rest).takeWhile Dictionary.isNameChar = name := by
      rw [List.takeWhile_append_of_pos areNameChars, noMore, List.append_nil]
    simp [literalName?, isName, notEmpty]

/-- The text names a font: behind the first whole `/FontName` stands a literal name. -/
def NamesFont (text name : List Char) : Prop :=
  ∃ place after rest, Key.fontName.FirstWholeAt text place after ∧
    StartsWithName (Text.trimStart after) name rest

theorem nameUnder?_fontName_eq_some_iff {name : String} :
    nameUnder? .fontName text = some name ↔ NamesFont text name.toList := by
  have apart : Key.fontName.first ∉ Key.fontName.others := by decide
  simp only [nameUnder?, Option.bind_eq_bind, Option.bind_eq_some_iff, Option.pure_def,
    Option.some.injEq, afterKey?_eq_some_iff apart, literalName?_eq_some_iff, NamesFont]
  constructor
  · rintro ⟨_, ⟨place, after, firstWhole, rfl⟩, literal, ⟨rest, starts⟩, rfl⟩
    rw [String.toList_ofList]
    exact ⟨place, after, rest, firstWhole, starts⟩
  · rintro ⟨place, after, rest, firstWhole, starts⟩
    exact ⟨_, ⟨place, after, firstWhole, rfl⟩, name.toList, ⟨rest, starts⟩, String.ofList_toList⟩

end Dictionary

namespace Font

variable {data : Bytes} {portions : Segments} {name : String} {font : Font}

/-- The bytes start like a font program. -/
def StartsFont (clearText : Bytes) : Prop :=
  ∃ header ∈ ["%!PS-AdobeFont", "%!FontType1"],
    Text.Utf8.encode header.toList <+: clearText

theorem hasFontHeader_iff {clearText : Bytes} :
    hasFontHeader (Text.Utf8.decodeLossy clearText) = true ↔ StartsFont clearText := by
  simp only [hasFontHeader, StartsFont, Bool.or_eq_true, List.isPrefixOf_iff_prefix,
    List.mem_cons, List.not_mem_nil, or_false, exists_eq_or_imp, exists_eq_left]
  rw [Text.Utf8.prefix_decodeLossy_iff (by decide), Text.Utf8.prefix_decodeLossy_iff (by decide)]

theorem encrypted_of_ofSegments (isFont : ofSegments portions = .ok font) :
    font.encrypted = portions.encrypted := by
  simp only [ofSegments] at isFont
  split at isFont
  · split at isFont
    · cases isFont
    · cases isFont
      rfl
  · cases isFont

theorem exists_ofSegments_eq_ok_iff :
    (∃ font, ofSegments portions = .ok font ∧ font.name = name) ↔
      StartsFont portions.clearText ∧
        Dictionary.NamesFont (Text.Utf8.decodeLossy portions.clearText) name.toList := by
  rw [← hasFontHeader_iff, ← Dictionary.nameUnder?_fontName_eq_some_iff]
  simp only [ofSegments]
  constructor
  · rintro ⟨font, isFont, rfl⟩
    split at isFont
    · rename_i starts
      split at isFont
      · cases isFont
      · rename_i found isFound
        cases isFont
        exact ⟨starts, isFound⟩
    · cases isFont
  · rintro ⟨starts, isName⟩
    simp [starts, isName]

end Font

/-- The search for a key whose first character does not come again in it finds the first whole key,
and a font is read exactly when its file splits, its clear text starts like a font program, and a
name stands behind the first whole `/FontName` of the text that the clear text spells. -/
theorem Font.name_of_first_whole_key :
    (∀ (key : Dictionary.Key) (text : List Char), key.first ∉ key.others →
      Dictionary.FindsFirstWhole key text) ∧
      ∀ data name, (∃ font, ofBytes data = .ok font ∧ font.name = name) ↔
        ∃ portions, Segments.split data = .ok portions ∧ StartsFont portions.clearText ∧
          Dictionary.NamesFont (Text.Utf8.decodeLossy portions.clearText) name.toList := by
  constructor
  · intro key text apart
    exact Dictionary.findsFirstWhole apart
  · intro data name
    simp only [ofBytes]
    cases splits : Segments.split data with
    | error fault => simp
    | ok portions => simp [exists_ofSegments_eq_ok_iff]

namespace Specimen

/-- The key of this text stands behind a longer word that begins like it. -/
def nearMissText : List Char :=
  "%!FontType1\n/FontNameX /B def /FontName\n/Né def".toList

/-- The file that holds this text and nothing else. -/
def nearMissFile : Bytes :=
  [Segments.marker, 1, UInt8.ofNat (Text.Utf8.size nearMissText), 0, 0, 0] ++
    Text.Utf8.encode nearMissText ++ [Segments.marker, 3]

end Specimen

theorem Font.name_of_first_whole_key_specimen :
    Dictionary.Key.fontName.first ∉ Dictionary.Key.fontName.others ∧
      (∃ place after,
        Dictionary.Key.fontName.FirstWholeAt Specimen.nearMissText place after ∧
          "/Né def".toList = Text.trimStart after) ∧
      ∃ portions, Segments.split Specimen.nearMissFile = .ok portions ∧
        StartsFont portions.clearText ∧
        Dictionary.NamesFont (Text.Utf8.decodeLossy portions.clearText) "Né".toList := by
  have apart : Dictionary.Key.fontName.first ∉ Dictionary.Key.fontName.others := by
    decide
  rcases name_of_first_whole_key with ⟨finds, named⟩
  refine ⟨apart, ?_, ?_⟩
  · apply ((finds .fontName Specimen.nearMissText apart).eq_some_iff _).mp
    decide +kernel
  · apply (named Specimen.nearMissFile "Né").mp
    have isNamed : (ofBytes Specimen.nearMissFile).map Font.name = .ok "Né" := by
      decide +kernel
    cases isFont : ofBytes Specimen.nearMissFile with
    | error fault => simp [isFont, Except.map] at isNamed
    | ok font => exact ⟨font, rfl, by simpa [isFont, Except.map] using isNamed⟩

end FontCatalog.Type1
