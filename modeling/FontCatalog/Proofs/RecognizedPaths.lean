import FontCatalog.Proofs.FileNames
import FontCatalog.Proofs.Utf8RoundTrip
import Mathlib.Data.FinEnum

/-!
# The paths of font files

A path is of the kind that its extension stands for, and the extensions of a kind are a few ASCII
names in whichever case. The kind is not changed by what is put in front of the file name, by
slashes behind it, or by the case of its letters; an extension with anything but ASCII letters in it
stands for no kind, and need not even be UTF-8.
-/

namespace FontCatalog

/-- ASCII bytes spell a text, byte by byte. -/
theorem Text.Utf8.decode?_of_ascii {bytes : Bytes} (isAscii : ∀ byte ∈ bytes, byte < 0x80) :
    decode? bytes = some (bytes.map fun byte => Char.ofNat byte.toNat) := by
  rw [decode?_eq_some_iff, decode]
  induction bytes with
  | nil => rfl
  | cons byte rest ih =>
      rw [List.forall_mem_cons] at isAscii
      rw [decodeFrom_ascii (UInt8.lt_iff_toNat_lt.mp isAscii.1), ih isAscii.2]
      rfl

/-! ## The kinds of extensions -/

namespace ContainerKind

variable {kind : ContainerKind} {byte : UInt8} {extension : Bytes}

/-- The extensions of the files of a kind, in small letters. -/
def extensions : ContainerKind → List String
  | simple => ["ttf", "otf"]
  | collection => ["ttc", "otc"]
  | type1 => ["pfb"]
  | unrecognized => []

/-- The extension is one of the kind, but for the case of its letters. -/
def HasExtension (kind : ContainerKind) (extension : Bytes) : Prop :=
  ∃ known ∈ kind.extensions, extension.map lowerByte = asciiName known

/-- The bytes of an extension tell its kind. -/
theorem hasExtension_iff :
    kind.HasExtension extension ↔ kind ≠ .unrecognized ∧ ofExtension extension = kind := by
  simp only [HasExtension, ofExtension]
  generalize extension.map lowerByte = lower
  constructor
  · rintro ⟨known, isKnown, rfl⟩
    cases kind <;> revert known <;> decide
  · rintro ⟨isRecognized, isKind⟩
    split at isKind
    · rename_i isSimple
      subst isKind
      simpa [extensions] using isSimple
    · split at isKind
      · rename_i isCollection
        subst isKind
        simpa [extensions] using isCollection
      · split at isKind
        · rename_i isType1
          subst isKind
          simpa [extensions] using isType1
        · exact absurd isKind.symm isRecognized

/-- Slashes and dots have no case. -/
theorem lowerByte_eq_iff {mark : UInt8} (isMark : mark = Path.slash ∨ mark = Path.dot) :
    lowerByte byte = mark ↔ byte = mark := by
  revert byte
  rcases isMark with rfl | rfl <;> decide +kernel

/-- Only a letter can have the spelling of a small letter. -/
theorem isLetter_of_lowerByte (isSmall : 0x61 ≤ lowerByte byte ∧ lowerByte byte ≤ 0x7A) :
    0x41 ≤ byte ∧ byte ≤ 0x7A := by
  revert byte
  decide +kernel

theorem HasExtension.ne_nil (known : kind.HasExtension extension) : extension ≠ [] := by
  rintro rfl
  rw [hasExtension_iff] at known
  exact known.1 known.2.symm

/-- An extension of a kind consists of letters. -/
theorem HasExtension.isLetter (known : kind.HasExtension extension) :
    ∀ byte ∈ extension, 0x41 ≤ byte ∧ byte ≤ 0x7A := by
  have small : ∀ name ∈ kind.extensions, ∀ byte ∈ asciiName name, 0x61 ≤ byte ∧ byte ≤ 0x7A := by
    cases kind <;> decide +kernel
  rcases known with ⟨name, isKnown, isName⟩
  intro byte inside
  apply isLetter_of_lowerByte
  apply small name isKnown
  rw [← isName]
  exact List.mem_map_of_mem inside

end ContainerKind

/-! ## Paths of font files -/

namespace Path

open ContainerKind

variable {path left right : Path} {kind : ContainerKind} {name extension : Bytes}

/-- The path ends in a name with one of the extensions of a kind, and something stands in front of
the extension and its dot. -/
def IsNamed (path : Path) (kind : ContainerKind) : Prop :=
  ∃ stem extension, path.EndsIn (stem ++ dot :: extension) ∧ stem ≠ [] ∧ dot ∉ extension ∧
    kind.HasExtension extension

theorem isNamed_iff : path.IsNamed kind ↔ kind ≠ .unrecognized ∧ path.classify = kind := by
  constructor
  · rintro ⟨stem, extension, endsIn, notEmpty, noDot, known⟩
    have isLong : 2 < (stem ++ dot :: extension).length := by
      have stemPositive := List.length_pos_of_ne_nil notEmpty
      have extensionPositive := List.length_pos_of_ne_nil known.ne_nil
      rw [List.length_append, List.length_cons]
      omega
    have isFileName : path.fileName? = some (stem ++ dot :: extension) := by
      refine fileName?_eq_some_iff.mpr ⟨endsIn, ?_, ?_⟩
      · intro isCurrent
        simp [isCurrent] at isLong
      · intro isParent
        simp [isParent] at isLong
    have isExtension : extensionOf? (stem ++ dot :: extension) = some extension :=
      extensionOf?_eq_some_iff.mpr ⟨stem, rfl, notEmpty, noDot⟩
    rw [hasExtension_iff] at known
    refine ⟨known.1, ?_⟩
    simp only [classify, extension?, isFileName, Option.bind_some, isExtension, known.2]
  · rintro ⟨isRecognized, rfl⟩
    cases isExtension : path.extension? with
    | none => simp [classify, isExtension] at isRecognized
    | some extension =>
        rcases Option.bind_eq_some_iff.mp isExtension with ⟨name, isFileName, isCut⟩
        rcases extensionOf?_eq_some_iff.mp isCut with ⟨stem, rfl, notEmpty, noDot⟩
        have isKind : path.classify = ofExtension extension := by simp [classify, isExtension]
        rw [isKind] at isRecognized ⊢
        exact ⟨stem, extension, (fileName?_eq_some_iff.mp isFileName).1, notEmpty, noDot,
          hasExtension_iff.mpr ⟨isRecognized, rfl⟩⟩

theorem classify_eq_of_fileName? (same : left.fileName? = right.fileName?) :
    left.classify = right.classify := by
  rw [classify, classify, extension?, extension?, same]

/-- An extension with a byte beyond ASCII is not recognized, be it UTF-8 or not. -/
theorem classify_of_not_ascii (isExtension : path.extension? = some extension)
    (notAscii : ∃ byte ∈ extension, 0x80 ≤ byte) : path.classify = .unrecognized := by
  have isKind : path.classify = ofExtension extension := by simp [classify, isExtension]
  by_contra isRecognized
  rw [isKind] at isRecognized
  have known := hasExtension_iff.mpr ⟨isRecognized, rfl⟩
  rcases notAscii with ⟨byte, inside, high⟩
  exact absurd (UInt8.le_trans high (known.isLetter byte inside).2) (by decide)

theorem classify_of_not_utf8 (isExtension : path.extension? = some extension)
    (notText : Text.Utf8.decode? extension = none) : path.classify = .unrecognized := by
  apply classify_of_not_ascii isExtension
  by_contra noneBeyond
  have isAscii : ∀ byte ∈ extension, byte < 0x80 := by simpa using noneBeyond
  rw [Text.Utf8.decode?_of_ascii isAscii] at notText
  cases notText

/-! ## What does not change the kind -/

/-- What stands in front of a path with a name in it does not count. -/
theorem classify_join_of_normal {base next : Path} (inside : .normal name ∈ next.components) :
    (base.join next).classify = next.classify := by
  cases isAbsolute : next.isAbsolute with
  | true => simp [join, isAbsolute]
  | false =>
      have isInner : .normal name ∈ next.innerComponents := by
        rw [components_eq] at inside
        split_ifs at inside <;> simpa using inside
      have isLast : (base.join next).innerComponents.getLast? =
          next.innerComponents.getLast? := by
        rw [innerComponents, names_join_of_relative isAbsolute, List.filterMap_append]
        exact List.getLast?_append_of_ne_nil _ (List.ne_nil_of_mem isInner)
      exact classify_eq_of_fileName? (fileName?_eq_of_getLast? isLast)

theorem classify_append_tail {tail : Bytes} (isTail : IsTail tail) (path : Path) :
    classify ⟨path.spelling ++ tail⟩ = path.classify :=
  classify_eq_of_fileName? (fileName?_append_tail isTail path.spelling)

end Path

/-! ## The case of letters -/

namespace Bytes

open ContainerKind

variable {left right other front back : Bytes} {mark : UInt8}

/-- The bytes are the same but for the case of ASCII letters. -/
def SameLetters (left right : Bytes) : Prop :=
  left.map lowerByte = right.map lowerByte

instance (left right : Bytes) : Decidable (left.SameLetters right) :=
  inferInstanceAs (Decidable (_ = _))

theorem SameLetters.symm (same : left.SameLetters right) : right.SameLetters left :=
  Eq.symm same

theorem SameLetters.eq_nil (same : SameLetters [] other) : other = [] :=
  List.map_eq_nil_iff.mp (Eq.symm same)

theorem SameLetters.exists_append (same : SameLetters (front ++ back) other) :
    ∃ otherFront otherBack, other = otherFront ++ otherBack ∧
      front.SameLetters otherFront ∧ back.SameLetters otherBack := by
  rw [SameLetters, List.map_append] at same
  rcases List.map_eq_append_iff.mp same.symm with
    ⟨otherFront, otherBack, isOther, sameFront, sameBack⟩
  exact ⟨otherFront, otherBack, isOther, sameFront.symm, sameBack.symm⟩

theorem SameLetters.exists_cons (isMark : mark = Path.slash ∨ mark = Path.dot)
    (same : SameLetters (mark :: back) other) :
    ∃ otherBack, other = mark :: otherBack ∧ back.SameLetters otherBack := by
  rw [SameLetters, List.map_cons, (lowerByte_eq_iff isMark).mpr rfl] at same
  rcases List.map_eq_cons_iff.mp same.symm with ⟨byte, otherBack, isOther, isByte, sameBack⟩
  rw [lowerByte_eq_iff isMark] at isByte
  exact ⟨otherBack, isByte ▸ isOther, sameBack.symm⟩

theorem SameLetters.mem_of_mem (isMark : mark = Path.slash ∨ mark = Path.dot)
    (same : left.SameLetters right) (inside : mark ∈ left) : mark ∈ right := by
  rcases List.append_of_mem inside with ⟨front, back, rfl⟩
  rcases same.exists_append with ⟨otherFront, otherBack, rfl, -, sameBack⟩
  rcases sameBack.exists_cons isMark with ⟨rest, rfl, -⟩
  simp

end Bytes

namespace Path

open ContainerKind Bytes

variable {left right : Path} {kind : ContainerKind} {name other tail : Bytes}

theorem IsTail.of_sameLetters (isTail : IsTail tail) (same : tail.SameLetters other) :
    IsTail other := by
  induction isTail generalizing other with
  | nil => exact same.eq_nil ▸ .nil
  | slash _ ih =>
      rcases same.exists_append with ⟨front, back, rfl, sameFront, sameBack⟩
      rcases sameBack.exists_cons (.inl rfl) with ⟨rest, rfl, sameRest⟩
      rw [sameRest.eq_nil]
      exact .slash (ih sameFront)
  | slashDot _ ih =>
      rcases same.exists_append with ⟨front, back, rfl, sameFront, sameBack⟩
      rcases sameBack.exists_cons (.inl rfl) with ⟨afterSlash, rfl, sameAfterSlash⟩
      rcases sameAfterSlash.exists_cons (.inr rfl) with ⟨rest, rfl, sameRest⟩
      rw [sameRest.eq_nil]
      exact .slashDot (ih sameFront)

theorem IsName.of_sameLetters (isName : IsName name) (same : name.SameLetters other) :
    IsName other := by
  constructor
  · rintro rfl
    exact isName.1 same.symm.eq_nil
  · intro inside
    exact isName.2 (same.symm.mem_of_mem (.inl rfl) inside)

theorem EndsIn.exists_of_sameLetters (endsIn : left.EndsIn name)
    (same : left.spelling.SameLetters right.spelling) :
    ∃ other, right.EndsIn other ∧ name.SameLetters other := by
  rcases endsIn with ⟨front, tail, isSpelling, opens, isName, isTail⟩
  rw [isSpelling] at same
  rcases same.exists_append with ⟨start, otherTail, isRight, sameStart, sameTail⟩
  rcases sameStart.exists_append with ⟨otherFront, other, rfl, sameFront, sameName⟩
  refine ⟨other, ⟨otherFront, otherTail, isRight, ?_, isName.of_sameLetters sameName,
    isTail.of_sameLetters sameTail⟩, sameName⟩
  rcases opens with rfl | slashLast
  · exact .inl sameFront.eq_nil
  · rcases List.getLast?_eq_some_iff.mp slashLast with ⟨before, rfl⟩
    rcases sameFront.exists_append with ⟨otherBefore, last, rfl, -, sameLast⟩
    rcases sameLast.exists_cons (.inl rfl) with ⟨rest, rfl, sameRest⟩
    rw [sameRest.eq_nil]
    exact .inr List.getLast?_concat

theorem IsNamed.of_sameLetters (isNamed : left.IsNamed kind)
    (same : left.spelling.SameLetters right.spelling) : right.IsNamed kind := by
  rcases isNamed with ⟨stem, extension, endsIn, notEmpty, noDot, known, isKnown, isExtension⟩
  rcases endsIn.exists_of_sameLetters same with ⟨other, otherEndsIn, sameName⟩
  rcases sameName.exists_append with ⟨otherStem, back, rfl, sameStem, sameBack⟩
  rcases sameBack.exists_cons (.inr rfl) with ⟨otherExtension, rfl, sameExtension⟩
  refine ⟨otherStem, otherExtension, otherEndsIn, ?_, ?_, known, isKnown, ?_⟩
  · rintro rfl
    exact notEmpty sameStem.symm.eq_nil
  · intro inside
    exact noDot (sameExtension.symm.mem_of_mem (.inr rfl) inside)
  · exact sameExtension.symm.trans isExtension

/-- Paths that differ only in the case of ASCII letters are of one kind. -/
theorem classify_eq_of_sameLetters (same : left.spelling.SameLetters right.spelling) :
    left.classify = right.classify := by
  by_cases isRecognized : left.classify = .unrecognized
  · by_contra differs
    have isNamed : right.IsNamed right.classify :=
      isNamed_iff.mpr ⟨fun isOther => differs (isRecognized.trans isOther.symm), rfl⟩
    exact differs (isNamed_iff.mp (isNamed.of_sameLetters same.symm)).2
  · have isNamed : left.IsNamed left.classify := isNamed_iff.mpr ⟨isRecognized, rfl⟩
    exact (isNamed_iff.mp (isNamed.of_sameLetters same)).2.symm

end Path

/-- A path is of a kind exactly if it ends in the name of a file of that kind. Other bytes than
ASCII letters in the extension, whatever they spell, make it unrecognized; what stands in front of a
path with a name in it, the case of letters, and slashes at the end with or without dots make no
difference. -/
theorem Path.classified_by_name :
    (∀ (path : Path) kind, path.IsNamed kind ↔ kind ≠ .unrecognized ∧ path.classify = kind) ∧
      (∀ (path : Path) extension, path.extension? = some extension →
        Text.Utf8.decode? extension = none ∨ (∃ byte ∈ extension, 0x80 ≤ byte) →
          path.classify = .unrecognized) ∧
      (∀ (base next : Path) name, .normal name ∈ next.components →
        (base.join next).classify = next.classify) ∧
      (∀ left right : Path, left.spelling.SameLetters right.spelling →
        left.classify = right.classify) ∧
      ∀ (path : Path) tail, IsTail tail → classify ⟨path.spelling ++ tail⟩ = path.classify := by
  refine ⟨fun path kind => isNamed_iff, ?_, fun base next name => classify_join_of_normal,
    fun left right => classify_eq_of_sameLetters,
    fun path tail isTail => classify_append_tail isTail path⟩
  rintro path extension isExtension (notText | notAscii)
  · exact classify_of_not_utf8 isExtension notText
  · exact classify_of_not_ascii isExtension notAscii

namespace Specimen

/-- A hidden file with an extension in mixed case. -/
def mixedFile : Path :=
  .ofString "./.x.TtF"

/-- The same file with its extension in small letters. -/
def lowerFile : Path :=
  .ofString "./.x.ttf"

/-- Slashes and a dot, which add no name to a path. -/
def slashes : Bytes :=
  (Path.ofString "/.//").spelling

/-- The extension is not UTF-8. -/
def oddFile : Path :=
  ⟨[0x61, Path.dot, 0xFF]⟩

theorem isNamed_mixedFile : mixedFile.IsNamed .simple := by
  refine ⟨[Path.dot, 0x78], [0x54, 0x74, 0x46], ⟨[Path.dot, Path.slash], [], ?_, ?_, ?_, .nil⟩,
    ?_, ?_, "ttf", ?_, ?_⟩ <;> decide

end Specimen

theorem Path.classified_specimen :
    (Specimen.mixedFile.IsNamed .simple ∧ Specimen.mixedFile.classify = .simple) ∧
      (Specimen.oddFile.extension? = some [0xFF] ∧ Text.Utf8.decode? [0xFF] = none ∧
        Specimen.oddFile.classify = .unrecognized) ∧
      (.normal [0x2E, 0x78, 0x2E, 0x54, 0x74, 0x46] ∈ Specimen.mixedFile.components ∧
        (Specimen.oddFile.join Specimen.mixedFile).classify = .simple) ∧
      (Specimen.mixedFile.spelling.SameLetters Specimen.lowerFile.spelling ∧
        Specimen.lowerFile.classify = .simple) ∧
      IsTail Specimen.slashes ∧
        classify ⟨Specimen.mixedFile.spelling ++ Specimen.slashes⟩ = .simple := by
  rcases classified_by_name with ⟨named_iff, notText, behind, sameLetters, beforeTail⟩
  have isNamed := Specimen.isNamed_mixedFile
  have isKind := ((named_iff _ _).mp isNamed).2
  have isExtension : Specimen.oddFile.extension? = some [0xFF] := by decide +kernel
  have isNoText : Text.Utf8.decode? [0xFF] = none := by decide
  have inside : .normal [0x2E, 0x78, 0x2E, 0x54, 0x74, 0x46] ∈ Specimen.mixedFile.components := by
    decide +kernel
  have same : Specimen.mixedFile.spelling.SameLetters Specimen.lowerFile.spelling := by decide
  have isTail : IsTail Specimen.slashes := .slash (.slash (.slashDot .nil))
  refine ⟨⟨isNamed, isKind⟩, ⟨isExtension, isNoText, notText _ _ isExtension (.inl isNoText)⟩,
    ⟨inside, ?_⟩, ⟨same, ?_⟩, isTail, ?_⟩
  · rw [behind _ _ _ inside, isKind]
  · rw [← sameLetters _ _ same, isKind]
  · rw [beforeTail _ _ isTail, isKind]

end FontCatalog
