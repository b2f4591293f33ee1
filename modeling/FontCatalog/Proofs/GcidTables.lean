import FontCatalog.Proofs.FaceExamination
import FontCatalog.Proofs.Utf8RoundTrip

/-!
# Tables of character collections

What is read from a `gcid` table, for every string of bytes: which bytes count, what becomes of
them, and which tables are too short. A field is the text between its padding, and a text that was
put into a field is read back from it. The supplement is the first of its bytes with its sign, moved
up by eight bits, if the second one is negative; otherwise there is nothing left of it.
-/

namespace FontCatalog

/-! ## Trimming -/

namespace Text

variable {isBlank : Char → Bool} {text core : List Char}

/-- What is left of a text when the characters of a class are taken off both of its ends. -/
structure IsCore (isBlank : Char → Bool) (text core : List Char) : Prop where
  exists_around : ∃ before after, text = before ++ core ++ after ∧
    (∀ char ∈ before, isBlank char = true) ∧ ∀ char ∈ after, isBlank char = true
  starts : ∀ char, core.head? = some char → isBlank char = false
  ends : ∀ char, core.getLast? = some char → isBlank char = false

theorem trimEndBy_append (ends : ∀ char, core.getLast? = some char → isBlank char = false)
    {after : List Char} (blank : ∀ char ∈ after, isBlank char = true) :
    trimEndBy isBlank (core ++ after) = core := by
  have solid : core.reverse.dropWhile isBlank = core.reverse := by
    apply dropWhile_eq_self
    intro char isLast
    rw [List.head?_reverse] at isLast
    exact ends char isLast
  have blankBackwards : ∀ char ∈ after.reverse, isBlank char = true := by
    simpa using blank
  rw [trimEndBy, List.reverse_append, List.dropWhile_append_of_pos blankBackwards, solid,
    List.reverse_reverse]

theorem IsCore.trimBy_eq (isCore : IsCore isBlank text core) : trimBy isBlank text = core := by
  rcases isCore with ⟨⟨before, after, rfl, blankBefore, blankAfter⟩, starts, ends⟩
  rw [trimBy, List.append_assoc, List.dropWhile_append_of_pos blankBefore]
  cases core with
  | nil =>
      have nothing : after.dropWhile isBlank = [] := List.dropWhile_eq_nil_iff.mpr blankAfter
      rw [List.nil_append, nothing]
      rfl
  | cons char core =>
      rw [List.cons_append, List.dropWhile_cons, starts char rfl]
      exact trimEndBy_append ends blankAfter

theorem isCore_trimBy (isBlank : Char → Bool) (text : List Char) :
    IsCore isBlank text (trimBy isBlank text) := by
  have split := List.takeWhile_append_dropWhile (p := isBlank) (l := text)
  generalize isRest : text.dropWhile isBlank = rest at split
  have splitEnd := List.takeWhile_append_dropWhile (p := isBlank) (l := rest.reverse)
  have isTrimmed : trimBy isBlank text = (rest.reverse.dropWhile isBlank).reverse := by
    rw [trimBy, isRest]
    rfl
  have restSplit : rest =
      trimBy isBlank text ++ (rest.reverse.takeWhile isBlank).reverse := by
    rw [isTrimmed, ← List.reverse_append, splitEnd, List.reverse_reverse]
  refine ⟨⟨text.takeWhile isBlank, (rest.reverse.takeWhile isBlank).reverse, ?_, ?_, ?_⟩, ?_, ?_⟩
  · rw [List.append_assoc, ← restSplit, split]
  · intro char inside
    exact List.mem_takeWhile_imp inside
  · intro char inside
    exact List.mem_takeWhile_imp (List.mem_reverse.mp inside)
  · intro char isHead
    have isFirst : (text.dropWhile isBlank).head? = some char := by
      rw [isRest, restSplit, List.head?_append, isHead]
      rfl
    exact eq_false_of_head?_dropWhile isFirst
  · intro char isLast
    rw [isTrimmed, List.getLast?_reverse] at isLast
    exact eq_false_of_head?_dropWhile isLast

theorem trimBy_eq_iff : trimBy isBlank text = core ↔ IsCore isBlank text core :=
  ⟨fun isTrimmed => isTrimmed ▸ isCore_trimBy isBlank text, IsCore.trimBy_eq⟩

end Text

namespace Gcid

variable {bytes : Bytes} {info : CidSystemInfo} {text : List Char}

/-! ## Fields -/

/-- How a byte of a field shows: as itself if it is ASCII, as U+FFFD otherwise. -/
inductive Shows : UInt8 → Char → Prop
  | ascii {byte : UInt8} {char : Char} (isAscii : byte.toNat < 0x80)
      (same : char.toNat = byte.toNat) : Shows byte char
  | other {byte : UInt8} (notAscii : 0x80 ≤ byte.toNat) : Shows byte '\uFFFD'

/-- The text is what the bytes of a field show without the padding around it. -/
def IsField (bytes : Bytes) (text : List Char) : Prop :=
  ∃ shown, List.Forall₂ Shows bytes shown ∧ Text.IsCore isPadding shown text

theorem toNat_shown {byte : UInt8} (isAscii : byte.toNat < 0x80) :
    (shown byte).toNat = byte.toNat := by
  have isSmall : byte < 0x80 := isAscii
  rw [shown, if_pos isSmall]
  exact Text.Utf8.toNat_ofNat_of_isCode (Or.inl (by omega))

theorem shows_iff {byte : UInt8} {char : Char} : Shows byte char ↔ shown byte = char := by
  constructor
  · intro shows
    cases shows with
    | ascii isAscii same =>
        rw [← Char.toNat_inj, toNat_shown isAscii, same]
    | other notAscii =>
        have notSmall : ¬byte < 0x80 := UInt8.not_lt.mpr notAscii
        rw [shown, if_neg notSmall]
  · rintro rfl
    by_cases isAscii : byte.toNat < 0x80
    · exact .ascii isAscii (toNat_shown isAscii)
    · have notSmall : ¬byte < 0x80 := isAscii
      rw [shown, if_neg notSmall]
      exact .other (Nat.le_of_not_lt isAscii)

theorem forall₂_shows_iff {shownText : List Char} :
    List.Forall₂ Shows bytes shownText ↔ shownText = bytes.map shown := by
  have sameRelation : Shows = fun byte char => shown byte = char := by
    funext byte char
    exact propext shows_iff
  rw [sameRelation, ← List.forall₂_map_left_iff (R := Eq), List.forall₂_eq_eq_eq, eq_comm]

theorem isField_iff : IsField bytes text ↔ (field bytes).toList = text := by
  simp only [IsField, forall₂_shows_iff, exists_eq_left, ← Text.trimBy_eq_iff, field,
    String.toList_ofList]

/-- An ASCII text in a field, with padding on both sides. -/
structure PaddedField where
  before : Bytes
  text : List Char
  after : Bytes
  isAscii : ∀ char ∈ text, char.toNat < 0x80
  starts : ∀ char, text.head? = some char → 0x20 < char.toNat
  ends : ∀ char, text.getLast? = some char → 0x20 < char.toNat
  blankBefore : ∀ byte ∈ before, byte ≤ 0x20
  blankAfter : ∀ byte ∈ after, byte ≤ 0x20

/-- The bytes of the field. -/
def PaddedField.toBytes (padded : PaddedField) : Bytes :=
  padded.before ++ padded.text.map (fun char => UInt8.ofNat char.toNat) ++ padded.after

theorem isPadding_shown {byte : UInt8} (blank : byte ≤ 0x20) : isPadding (shown byte) = true := by
  have isSmall : byte.toNat ≤ 0x20 := blank
  rw [isPadding, decide_eq_true_eq, toNat_shown (by omega)]
  exact isSmall

theorem shown_ofNat_toNat {char : Char} (isAscii : char.toNat < 0x80) :
    shown (UInt8.ofNat char.toNat) = char := by
  have isByte : (UInt8.ofNat char.toNat).toNat = char.toNat := Text.Utf8.toNat_byte (by omega)
  exact shows_iff.mp (.ascii (by omega) isByte.symm)

/-- A text that was put into a field is what the field holds. -/
theorem PaddedField.isField (padded : PaddedField) : IsField padded.toBytes padded.text := by
  have isText : padded.text.map (fun char => shown (UInt8.ofNat char.toNat)) = padded.text :=
    (List.map_congr_left fun char inside => shown_ofNat_toNat (padded.isAscii char inside)).trans
      (List.map_id _)
  refine ⟨_, forall₂_shows_iff.mpr rfl, ⟨padded.before.map shown, padded.after.map shown, ?_, ?_,
    ?_⟩, ?_, ?_⟩
  · simp [toBytes, Function.comp_def, isText]
  · simpa using fun byte inside => isPadding_shown (padded.blankBefore byte inside)
  · simpa using fun byte inside => isPadding_shown (padded.blankAfter byte inside)
  · intro char isHead
    simpa [isPadding] using padded.starts char isHead
  · intro char isLast
    simpa [isPadding] using padded.ends char isLast

theorem PaddedField.eq_text {padded : PaddedField} (isField : IsField padded.toBytes text) :
    text = padded.text :=
  (isField_iff.mp isField).symm.trans (isField_iff.mp padded.isField)

/-! ## Tables -/

theorem toInt_high : ∀ byte : UInt8, (high byte).toInt = 256 * byte.toInt8.toInt := by
  decide +kernel

theorem toInt_supplement (first second : UInt8) :
    (supplement first second).toInt = if 0x80 ≤ second then 256 * first.toInt8.toInt else 0 := by
  rw [supplement_eq]
  split
  · exact toInt_high first
  · rfl

/-- The character collection that a table tells. -/
structure Tells (bytes : Bytes) (info : CidSystemInfo) : Prop where
  registry : ∃ part, bytes.slice? 10 64 = some part ∧ IsField part info.registry.toList
  ordering : ∃ part, bytes.slice? 76 64 = some part ∧ IsField part info.ordering.toList
  supplement : ∃ first second, bytes.slice? 140 2 = some [first, second] ∧
    info.supplement.toInt = if 0x80 ≤ second then 256 * first.toInt8.toInt else 0

/-- A long enough table by its parts. -/
theorem exists_parts (long : 142 ≤ bytes.length) : ∃ registry ordering first second,
    bytes.slice? 10 64 = some registry ∧ bytes.slice? 76 64 = some ordering ∧
      bytes.slice? 140 2 = some [first, second] ∧
      read bytes = .ok ⟨field registry, field ordering, supplement first second⟩ := by
  have isFirst : bytes[140]? = some bytes[140] := List.getElem?_eq_getElem (by omega)
  have isSecond : bytes[141]? = some bytes[141] := List.getElem?_eq_getElem (by omega)
  have drop140 : bytes.drop 140 = bytes[140] :: bytes[141] :: bytes.drop 142 := by
    rw [List.drop_eq_getElem_cons (by omega), List.drop_eq_getElem_cons (by omega)]
  refine ⟨_, _, bytes[140], bytes[141], if_pos (by omega), if_pos (by omega), ?_, ?_⟩
  · rw [Bytes.slice?, if_pos (by omega), drop140]
    rfl
  · exact dif_neg (Nat.not_lt.mpr long)

theorem Tells.length_le (tells : Tells bytes info) : 142 ≤ bytes.length := by
  rcases tells.supplement with ⟨first, second, isPart, -⟩
  rw [Bytes.slice?] at isPart
  split at isPart
  · assumption
  · cases isPart

theorem read_eq_ok_iff : read bytes = .ok info ↔ Tells bytes info := by
  constructor
  · intro isRead
    have long : 142 ≤ bytes.length := by
      by_contra short
      rw [read_eq_error_iff.mpr ⟨by omega, rfl⟩] at isRead
      cases isRead
    rcases exists_parts long with
      ⟨registry, ordering, first, second, isRegistry, isOrdering, isSupplement, isInfo⟩
    rw [isInfo] at isRead
    cases isRead
    exact ⟨⟨_, isRegistry, isField_iff.mpr rfl⟩, ⟨_, isOrdering, isField_iff.mpr rfl⟩,
      ⟨_, _, isSupplement, toInt_supplement first second⟩⟩
  · intro tells
    rcases exists_parts tells.length_le with
      ⟨registry, ordering, first, second, isRegistry, isOrdering, isSupplement, isInfo⟩
    rcases tells with
      ⟨⟨_, isRegistry', registryField⟩, ⟨_, isOrdering', orderingField⟩,
        ⟨_, _, isSupplement', supplementValue⟩⟩
    -- The parts of a table are determined, and so is what each of them shows.
    cases isRegistry.symm.trans isRegistry'
    cases isOrdering.symm.trans isOrdering'
    cases isSupplement.symm.trans isSupplement'
    rw [isField_iff, String.toList_inj] at registryField orderingField
    rw [← toInt_supplement, Int32.toInt_inj] at supplementValue
    rw [isInfo, registryField, orderingField, ← supplementValue]

/-- How tables are read. -/
structure ReadsTable (bytes : Bytes) : Prop where
  eq_error_iff : ∀ fault, read bytes = .error fault ↔ bytes.length < 142 ∧ fault = ⟨bytes.length⟩
  eq_ok_iff : ∀ info, read bytes = .ok info ↔ Tells bytes info
  exists_info : 142 ≤ bytes.length → ∃ info, read bytes = .ok info
  ignores_others : ∀ other : Bytes, 142 ≤ bytes.length → 142 ≤ other.length →
    other.slice? 10 64 = bytes.slice? 10 64 → other.slice? 76 64 = bytes.slice? 76 64 →
      other.slice? 140 2 = bytes.slice? 140 2 → read other = read bytes
  registry_of_padded : ∀ (padded : PaddedField) (info : CidSystemInfo), read bytes = .ok info →
    bytes.slice? 10 64 = some padded.toBytes → info.registry.toList = padded.text
  ordering_of_padded : ∀ (padded : PaddedField) (info : CidSystemInfo), read bytes = .ok info →
    bytes.slice? 76 64 = some padded.toBytes → info.ordering.toList = padded.text
  supplement_bounds : ∀ info, read bytes = .ok info →
    -32768 ≤ info.supplement.toInt ∧ info.supplement.toInt ≤ 32512

theorem readsTable (bytes : Bytes) : ReadsTable bytes where
  eq_error_iff _ := read_eq_error_iff
  eq_ok_iff _ := read_eq_ok_iff
  exists_info := by
    intro long
    rcases exists_parts long with ⟨registry, ordering, first, second, -, -, -, isInfo⟩
    exact ⟨_, isInfo⟩
  ignores_others := by
    intro other long otherLong sameRegistry sameOrdering sameSupplement
    rcases exists_parts long with ⟨registry, ordering, first, second, -, -, -, isInfo⟩
    have tells := read_eq_ok_iff.mp isInfo
    rw [isInfo, read_eq_ok_iff]
    exact ⟨sameRegistry ▸ tells.registry, sameOrdering ▸ tells.ordering,
      sameSupplement ▸ tells.supplement⟩
  registry_of_padded := by
    intro padded info isRead isPart
    rcases (read_eq_ok_iff.mp isRead).registry with ⟨part, isPart', isField⟩
    cases isPart.symm.trans isPart'
    exact PaddedField.eq_text isField
  ordering_of_padded := by
    intro padded info isRead isPart
    rcases (read_eq_ok_iff.mp isRead).ordering with ⟨part, isPart', isField⟩
    cases isPart.symm.trans isPart'
    exact PaddedField.eq_text isField
  supplement_bounds := by
    intro info isRead
    exact (supplement_bounds isRead).2

end Gcid

end FontCatalog
