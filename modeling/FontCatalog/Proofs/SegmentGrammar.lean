import FontCatalog.Proofs.Numerals
import FontCatalog.Type1.Font
import Mathlib.Control.Monad.Basic

/-!
# The grammar of PFB files

A PFB file is cut into segments that stand one after another, and after the last of them the file
ends or the end marker stands with anything behind it. `Cut` says this without reading anything.
Splitting a file succeeds exactly when there is such a cut with some clear text in it, what it
collects is told by the segments of the cut, and no file can be cut in two ways.
-/

namespace FontCatalog.Type1

/-- What a segment is marked to hold. -/
inductive SegmentKind where
  | clear
  | encrypted
deriving DecidableEq

/-- The byte that stands for a kind. -/
def SegmentKind.code : SegmentKind → UInt8
  | clear => 1
  | encrypted => 2

/-- A segment: its kind, and a body whose length four bytes can tell. -/
structure Segment where
  kind : SegmentKind
  body : Bytes
  short : body.length < 2 ^ 32

namespace Segment

/-- The bytes of a segment: marker, kind, length, and body. -/
def bytes (segment : Segment) : Bytes :=
  Segments.marker :: segment.kind.code ::
    (Bytes.littleEndianOf 4 segment.body.length ++ segment.body)

/-- The bodies of the segments of a kind, one after another. -/
def bodiesOf (kind : SegmentKind) (segments : List Segment) : Bytes :=
  (segments.filter fun segment => segment.kind = kind).flatMap body

/-- The segment has encrypted bytes. An empty segment has none, whatever its kind. -/
def HasEncrypted (segment : Segment) : Prop :=
  segment.kind = .encrypted ∧ segment.body ≠ []

instance (segment : Segment) : Decidable segment.HasEncrypted :=
  inferInstanceAs (Decidable (_ ∧ _))

/-- The portions that segments hold: the clear text in front of the first encrypted byte, and all
encrypted bytes. -/
def portions (segments : List Segment) : Segments where
  clearText := bodiesOf .clear (segments.takeWhile fun segment => ¬segment.HasEncrypted)
  encrypted := bodiesOf .encrypted segments

end Segment

/-- What may stand after the last segment: nothing, or the end marker and then any bytes. -/
inductive Ending : Bytes → Prop where
  | endOfFile : Ending []
  | marked (rest : Bytes) : Ending (Segments.marker :: 3 :: rest)

/-- The bytes of a file are those of the segments, one after another, and an ending. -/
structure Cut (data : Bytes) (segments : List Segment) (ending : Bytes) : Prop where
  data_eq : data = segments.flatMap Segment.bytes ++ ending
  ends : Ending ending

namespace Segments

variable {offset : Nat} {collected result : Segments} {data rest ending : Bytes}
  {segment : Segment} {segments : List Segment}

/-! ## Collecting segments -/

/-- The portions with the body of one more segment. -/
def add (collected : Segments) (segment : Segment) : Segments :=
  match segment.kind with
  | .clear =>
      if collected.encrypted = [] then
        { collected with clearText := collected.clearText ++ segment.body }
      else collected
  | .encrypted => { collected with encrypted := collected.encrypted ++ segment.body }

theorem add?_eq_some_add (collected : Segments) (segment : Segment) :
    collected.add? segment.kind.code segment.body = some (collected.add segment) := by
  rcases segment with ⟨kind, body, short⟩
  cases kind with
  | clear =>
      simp only [add?, add, SegmentKind.code, if_true]
      split <;> rfl
  | encrypted => simp [add?, add, SegmentKind.code]

theorem collect_bytes (offset : Nat) (collected : Segments) (segment : Segment) (rest : Bytes) :
    collect offset collected (segment.bytes ++ rest) =
      collect (offset + 6 + segment.body.length) (collected.add segment) rest := by
  have isKind : segment.kind.code ≠ 3 := by
    cases segment.kind <;> decide
  have isLength : Bytes.littleEndian (Bytes.littleEndianOf 4 segment.body.length) =
      segment.body.length := by
    apply Bytes.littleEndian_littleEndianOf
    have := segment.short
    omega
  have enough : ¬(segment.body ++ rest).length < segment.body.length := by
    rw [List.length_append]
    omega
  simp only [Segment.bytes, Bytes.littleEndianOf, List.cons_append, List.nil_append] at isLength ⊢
  conv => lhs; unfold collect
  simp only [ne_eq, not_true_eq_false, if_false, isKind, isLength, enough, List.take_left,
    add?_eq_some_add, List.drop_left]

theorem collect_ending (offset : Nat) (collected : Segments) (ends : Ending ending) :
    collect offset collected ending = .ok collected := by
  cases ends with
  | endOfFile => unfold collect; rfl
  | marked rest => unfold collect; simp

theorem collect_of_cut (offset : Nat) (collected : Segments) (cut : Cut data segments ending) :
    collect offset collected data = .ok (segments.foldl add collected) := by
  rcases cut with ⟨rfl, ends⟩
  induction segments generalizing offset collected with
  | nil => exact collect_ending offset collected ends
  | cons segment rest ih =>
      rw [List.flatMap_cons, List.append_assoc, collect_bytes]
      exact ih _ _

theorem exists_code_eq_of_add? {kind : UInt8} {body : Bytes} {next : Segments}
    (added : collected.add? kind body = some next) :
    ∃ segmentKind, SegmentKind.code segmentKind = kind := by
  simp only [add?] at added
  split at added
  · rename_i isClear
    exact ⟨.clear, isClear.symm⟩
  · split at added
    · rename_i isEncrypted
      exact ⟨.encrypted, isEncrypted.symm⟩
    · cases added

/-- A header whose length the body reaches opens a segment. -/
theorem exists_bytes_eq (kind : SegmentKind) {byte0 byte1 byte2 byte3 : UInt8} {body : Bytes}
    (enough : Bytes.littleEndian [byte0, byte1, byte2, byte3] ≤ body.length) :
    ∃ segment : Segment,
      marker :: kind.code :: byte0 :: byte1 :: byte2 :: byte3 :: body =
        segment.bytes ++ body.drop (Bytes.littleEndian [byte0, byte1, byte2, byte3]) := by
  have fits := Bytes.littleEndian_lt [byte0, byte1, byte2, byte3]
  have spelled : Bytes.littleEndianOf 4 (Bytes.littleEndian [byte0, byte1, byte2, byte3]) =
      [byte0, byte1, byte2, byte3] :=
    Bytes.littleEndianOf_littleEndian [byte0, byte1, byte2, byte3]
  generalize Bytes.littleEndian [byte0, byte1, byte2, byte3] = length at *
  have isLength : (body.take length).length = length := List.length_take_of_le enough
  have short : (body.take length).length < 2 ^ 32 := by
    rw [isLength]
    simpa using fits
  refine ⟨⟨kind, body.take length, short⟩, ?_⟩
  simp [Segment.bytes, isLength, spelled]

theorem exists_cut_of_collect (collects : collect offset collected data = .ok result) :
    ∃ segments ending, Cut data segments ending := by
  -- Collecting succeeds at the end of the file, at the end marker, and after one more segment.
  fun_induction collect offset collected data with
  | case1 => exact ⟨[], [], rfl, .endOfFile⟩
  | case4 offset collected first isMarker afterKind =>
      rw [Decidable.not_not] at isMarker
      subst isMarker
      exact ⟨[], _, rfl, .marked afterKind⟩
  | case7 offset collected first isMarker kind notEnd byte0 byte1 byte2 byte3 body length enough
      next added ih =>
      rw [Decidable.not_not] at isMarker
      subst isMarker
      rcases exists_code_eq_of_add? added with ⟨segmentKind, rfl⟩
      rcases exists_bytes_eq segmentKind (Nat.le_of_not_lt enough) with ⟨segment, isSegment⟩
      rcases ih collects with ⟨segments, ending, data_eq, ends⟩
      refine ⟨segment :: segments, ending, ?_, ends⟩
      rw [isSegment, data_eq, List.flatMap_cons, List.append_assoc]
  | _ => cases collects

/-! ## The portions of a cut -/

theorem foldl_add_of_encrypted (opened : collected.encrypted ≠ []) :
    segments.foldl add collected =
      ⟨collected.clearText, collected.encrypted ++ Segment.bodiesOf .encrypted segments⟩ := by
  induction segments generalizing collected with
  | nil => simp [Segment.bodiesOf]
  | cons segment rest ih =>
      rw [List.foldl_cons]
      cases isKind : segment.kind with
      | clear =>
          have skipped : collected.add segment = collected := by simp [add, isKind, opened]
          rw [skipped, ih opened]
          simp [Segment.bodiesOf, isKind]
      | encrypted =>
          have stillOpened : (collected.add segment).encrypted ≠ [] := by
            simp [add, isKind, opened]
          rw [ih stillOpened]
          simp [add, Segment.bodiesOf, isKind]

theorem foldl_add_of_clear (text : Bytes) :
    segments.foldl add ⟨text, []⟩ =
      ⟨text ++ (Segment.portions segments).clearText, (Segment.portions segments).encrypted⟩ := by
  induction segments generalizing text with
  | nil => simp [Segment.portions, Segment.bodiesOf]
  | cons segment rest ih =>
      rw [List.foldl_cons]
      -- From the first encrypted byte on, no more clear text is taken.
      by_cases opens : segment.HasEncrypted
      · rcases opens with ⟨isKind, isFull⟩
        have opened : ((⟨text, []⟩ : Segments).add segment).encrypted ≠ [] := by
          simpa [add, isKind] using isFull
        rw [foldl_add_of_encrypted opened]
        simp [add, isKind, Segment.portions, Segment.bodiesOf, Segment.HasEncrypted, isFull]
      · cases isKind : segment.kind with
        | clear =>
            have taken : (⟨text, []⟩ : Segments).add segment = ⟨text ++ segment.body, []⟩ := by
              simp [add, isKind]
            rw [taken, ih]
            simp [Segment.portions, Segment.bodiesOf, Segment.HasEncrypted, isKind]
        | encrypted =>
            have isEmpty : segment.body = [] := by
              simpa [Segment.HasEncrypted, isKind] using opens
            have passed : (⟨text, []⟩ : Segments).add segment = ⟨text, []⟩ := by
              simp [add, isKind, isEmpty]
            rw [passed, ih]
            simp [Segment.portions, Segment.bodiesOf, Segment.HasEncrypted, isKind, isEmpty]

theorem collect_eq_portions (cut : Cut data segments ending) :
    collect 0 ⟨[], []⟩ data = .ok (Segment.portions segments) := by
  rw [collect_of_cut 0 _ cut, foldl_add_of_clear, List.nil_append]

end Segments

/-! ## Cuts are unique -/

theorem Segment.bytes_ne_ending {segment : Segment} {rest ending : Bytes} (ends : Ending ending) :
    segment.bytes ++ rest ≠ ending := by
  intro same
  cases ends with
  | endOfFile => simp [bytes] at same
  | marked after =>
      have isEnd : segment.kind.code = 3 := by
        simp only [bytes, List.cons_append, List.cons.injEq] at same
        exact same.2.1
      cases isKind : segment.kind <;> simp [isKind, SegmentKind.code] at isEnd

theorem Segment.eq_of_bytes_append_eq {left right : Segment} {leftRest rightRest : Bytes}
    (same : left.bytes ++ leftRest = right.bytes ++ rightRest) :
    left = right ∧ leftRest = rightRest := by
  rcases left with ⟨leftKind, leftBody, leftShort⟩
  rcases right with ⟨rightKind, rightBody, rightShort⟩
  simp only [bytes, List.cons_append, List.cons.injEq, List.append_assoc, true_and] at same
  rcases same with ⟨sameCode, sameRest⟩
  have sameKind : leftKind = rightKind := by
    cases leftKind <;> cases rightKind <;> simp [SegmentKind.code] at sameCode ⊢
  rcases List.append_inj sameRest (by simp) with ⟨sameHeader, sameBodies⟩
  have sameLength : leftBody.length = rightBody.length := by
    have read := congrArg Bytes.littleEndian sameHeader
    rwa [Bytes.littleEndian_littleEndianOf (by omega),
      Bytes.littleEndian_littleEndianOf (by omega)] at read
  rcases List.append_inj sameBodies sameLength with ⟨rfl, rfl⟩
  subst sameKind
  exact ⟨rfl, rfl⟩

theorem Cut.unique {data leftEnding rightEnding : Bytes} {left right : List Segment}
    (isLeft : Cut data left leftEnding) (isRight : Cut data right rightEnding) :
    left = right ∧ leftEnding = rightEnding := by
  rcases isLeft with ⟨rfl, leftEnds⟩
  rcases isRight with ⟨same, rightEnds⟩
  induction left generalizing right with
  | nil =>
      cases right with
      | nil => exact ⟨rfl, same⟩
      | cons segment rest =>
          rw [List.flatMap_cons, List.append_assoc] at same
          exact absurd same.symm (Segment.bytes_ne_ending leftEnds)
  | cons segment rest ih =>
      cases right with
      | nil =>
          rw [List.flatMap_cons, List.append_assoc] at same
          exact absurd same (Segment.bytes_ne_ending rightEnds)
      | cons other others =>
          simp only [List.flatMap_cons, List.append_assoc] at same
          rcases Segment.eq_of_bytes_append_eq same with ⟨rfl, sameRest⟩
          rcases ih sameRest with ⟨rfl, sameEnding⟩
          exact ⟨rfl, sameEnding⟩

/-! ## Splitting -/

theorem Segments.split_of_cut {data ending : Bytes} {segments : List Segment}
    (cut : Cut data segments ending) :
    split data = if (Segment.portions segments).clearText = [] then .error .noClearText
      else .ok (Segment.portions segments) := by
  simp [split, collect_eq_portions cut, bind, Except.bind]

theorem Segments.exists_cut_of_split {data : Bytes} {portions : Segments}
    (splits : split data = .ok portions) : ∃ segments ending, Cut data segments ending := by
  cases collects : collect 0 ⟨[], []⟩ data with
  | ok collected => exact exists_cut_of_collect collects
  | error fault => simp [split, collects, bind, Except.bind] at splits

/-- A file can be split exactly when it can be cut into segments with some clear text among them.
The cut is unique and tells the portions, and a font is made from the portions alone, so two files
with the same portions are the same font or fail alike, wherever they are cut and however they
end. -/
theorem Segments.split_eq_ok_iff_cut (data : Bytes) :
    (∀ portions, split data = .ok portions ↔
      ∃ segments ending, Cut data segments ending ∧ portions = Segment.portions segments ∧
        portions.clearText ≠ []) ∧
      (∀ left right leftEnding rightEnding, Cut data left leftEnding →
        Cut data right rightEnding → left = right ∧ leftEnding = rightEnding) ∧
      ∀ other segments otherSegments ending otherEnding, Cut data segments ending →
        Cut other otherSegments otherEnding →
        Segment.portions segments = Segment.portions otherSegments →
        Font.ofBytes data = Font.ofBytes other := by
  refine ⟨?_, ?_, ?_⟩
  · intro portions
    constructor
    · intro splits
      rcases exists_cut_of_split splits with ⟨segments, ending, cut⟩
      rw [split_of_cut cut] at splits
      split at splits
      · cases splits
      · rename_i hasText
        cases splits
        exact ⟨segments, ending, cut, rfl, hasText⟩
    · rintro ⟨segments, ending, cut, rfl, hasText⟩
      rw [split_of_cut cut, if_neg hasText]
  · intro left right leftEnding rightEnding isLeft isRight
    exact isLeft.unique isRight
  · intro other segments otherSegments ending otherEnding cut otherCut same
    simp only [Font.ofBytes, split_of_cut cut, split_of_cut otherCut, same]

/-! ## A font that is cut twice

The same font as two segments, and as six that are cut inside the key, around an empty encrypted
segment and inside the two bytes of the last character of its name. -/

namespace Specimen

/-- The clear text of a font with the name `Né`, up to the middle of its key. -/
def beforeKeyEnds : Bytes :=
  Text.Utf8.encode "%!FontType1\n/Font".toList

/-- The rest of the clear text. -/
def afterKeyBegins : Bytes :=
  Text.Utf8.encode "Name /Né".toList

/-- The font in one clear and one encrypted segment. -/
def twoSegments : List Segment :=
  [⟨.clear, beforeKeyEnds ++ afterKeyBegins, by decide⟩, ⟨.encrypted, [1, 2, 3], by decide⟩]

/-- The same font, cut at more places. -/
def sixSegments : List Segment :=
  [⟨.clear, beforeKeyEnds, by decide⟩, ⟨.encrypted, [], by decide⟩,
    ⟨.clear, afterKeyBegins.take 8, by decide⟩, ⟨.clear, afterKeyBegins.drop 8, by decide⟩,
    ⟨.encrypted, [1, 2], by decide⟩, ⟨.encrypted, [3], by decide⟩]

/-- A file that ends with its last segment. -/
def twoSegmentFile : Bytes :=
  twoSegments.flatMap Segment.bytes

/-- The end marker of this file is followed by a segment that does not count. -/
def sixSegmentFile : Bytes :=
  sixSegments.flatMap Segment.bytes ++ [Segments.marker, 3, Segments.marker, 1]

end Specimen

theorem Segments.split_specimens :
    Cut Specimen.twoSegmentFile Specimen.twoSegments [] ∧
      Cut Specimen.sixSegmentFile Specimen.sixSegments [marker, 3, marker, 1] ∧
      Segment.portions Specimen.twoSegments = Segment.portions Specimen.sixSegments ∧
      (Font.ofBytes Specimen.sixSegmentFile).map Font.name = .ok "Né" ∧
      Font.ofBytes Specimen.twoSegmentFile = Font.ofBytes Specimen.sixSegmentFile := by
  have isTwo : Cut Specimen.twoSegmentFile Specimen.twoSegments [] :=
    ⟨(List.append_nil _).symm, .endOfFile⟩
  have isSix : Cut Specimen.sixSegmentFile Specimen.sixSegments [marker, 3, marker, 1] :=
    ⟨rfl, .marked [marker, 1]⟩
  have same : Segment.portions Specimen.twoSegments = Segment.portions Specimen.sixSegments := by
    decide
  refine ⟨isTwo, isSix, same, by decide +kernel, ?_⟩
  rcases split_eq_ok_iff_cut Specimen.twoSegmentFile with ⟨-, -, ofBytes_eq⟩
  exact ofBytes_eq _ _ _ _ _ isTwo isSix same

end FontCatalog.Type1
