import FontCatalog.Proofs.ExportRoundTrip

/-!
# Exports that are edited by lines

An export with one record on each line can be joined with another one, and it is read back after
an editor has changed its line ends or put blank lines into it. A line that is no record, wherever
it stands after the first record, makes the reading fail with the fault of that line.

The reader takes white space off the start of the text before it looks for lines. That is harmless
because the first line that counts starts with a brace: what is taken off are blank lines, which
would not count anyway.
-/

namespace FontCatalog.Export

open Json

/-! ## Texts in lines -/

/-- A line with its end: a line feed, with or without a carriage return before it. A carriage return
right before the line feed always belongs to the line end. -/
structure Line where
  content : List Char
  hasReturn : Bool
  single : '\n' ∉ content
  noReturn : hasReturn = false → content.getLast? ≠ some '\r'

/-- The text of a line with its end. -/
def Line.chars (line : Line) : List Char :=
  line.content ++ (if line.hasReturn then ['\r', '\n'] else ['\n'])

/-- A text as a list of lines, the last of which has no end. -/
structure LinedText where
  lines : List Line
  last : List Char
  single : '\n' ∉ last

namespace LinedText

/-- The characters of the text. -/
def chars (text : LinedText) : List Char :=
  text.lines.flatMap Line.chars ++ text.last

/-- The lines of the text without their ends. -/
def contents (text : LinedText) : List (List Char) :=
  text.lines.map Line.content ++ [text.last]

end LinedText

/-- The second list of lines is the first one with further lines of some kind put in. -/
inductive Interspersed (extra : List Char → Prop) : List (List Char) → List (List Char) → Prop
  | nil : Interspersed extra [] []
  | kept (line : List Char) {lines all : List (List Char)} (others : Interspersed extra lines all) :
      Interspersed extra (line :: lines) (line :: all)
  | put (line : List Char) {lines all : List (List Char)} (isExtra : extra line)
      (others : Interspersed extra lines all) : Interspersed extra lines (line :: all)

theorem lines_chars_append (line : Line) (rest : List Char) :
    Text.lines (line.chars ++ rest) = line.content :: Text.lines rest := by
  rcases line with ⟨content, hasReturn, single, noReturn⟩
  cases hasReturn with
  | false =>
      have isSplit := lines_append_lineFeed single rest
      rw [dropCarriageReturn_eq (noReturn rfl)] at isSplit
      simpa [Line.chars] using isSplit
  | true =>
      have notInside : '\n' ∉ content ++ ['\r'] := by simp [single]
      have isDropped : Text.dropCarriageReturn (content ++ ['\r']) = content := by
        simp [Text.dropCarriageReturn]
      have isSplit := lines_append_lineFeed notInside rest
      rw [isDropped] at isSplit
      simpa [Line.chars] using isSplit

/-- An empty last line is no line, but it would not count either. -/
theorem readLines_lines_last {last : List Char} (single : '\n' ∉ last) :
    readLines (Text.lines last) = readLines [last] := by
  rw [Text.lines, pieces_line single, Text.linesOfPieces]
  split
  · rename_i isEmpty
    rw [isEmpty]
    rfl
  · rfl

theorem readLines_congr (lines : List (List Char)) {left right : List (List Char)}
    (same : readLines left = readLines right) :
    readLines (lines ++ left) = readLines (lines ++ right) := by
  induction lines with
  | nil => exact same
  | cons line lines ih => simp only [List.cons_append, readLines, ih]

theorem readLines_lines (lines : List Line) {last : List Char} (single : '\n' ∉ last) :
    readLines (Text.lines (lines.flatMap Line.chars ++ last)) =
      readLines (lines.map Line.content ++ [last]) := by
  have isSplit : Text.lines (lines.flatMap Line.chars ++ last) =
      lines.map Line.content ++ Text.lines last := by
    induction lines with
    | nil => rfl
    | cons line lines ih =>
        rw [List.flatMap_cons, List.append_assoc, lines_chars_append, ih]
        rfl
  rw [isSplit]
  exact readLines_congr _ (readLines_lines_last single)

/-! ## White space at the start -/

theorem isBlank_chars (line : Line) : Text.isBlank line.chars = Text.isBlank line.content := by
  have ends : ∀ hasReturn : Bool,
      Text.isBlank (if hasReturn then ['\r', '\n'] else ['\n']) = true := by decide
  simp only [Text.isBlank] at ends ⊢
  rw [Line.chars, List.all_append, ends, Bool.and_true]

theorem read_append_of_isBlank {blank : List Char} (isBlank : Text.isBlank blank = true)
    (rest : List Char) : read (blank ++ rest) = read rest := by
  have trimmed : Text.trimStart (blank ++ rest) = Text.trimStart rest := by
    simp only [Text.isBlank, List.all_eq_true] at isBlank
    exact List.dropWhile_append_of_pos isBlank
  simp only [read, trimmed]

theorem read_of_head?_eq {text : List Char} (starts : text.head? = some '\x7b') :
    read text = readLines (Text.lines text) := by
  cases text with
  | nil => cases starts
  | cons first rest =>
      cases starts
      rfl

/-- A text in lines, the first of which that is not blank starts with a brace, is read line by
line. -/
theorem read_lines (lines : List Line) {last : List Char} (single : '\n' ∉ last)
    (starts : ∀ content, (lines.map Line.content ++ [last]).find? (!Text.isBlank ·) = some content →
      content.head? = some '\x7b') :
    read (lines.flatMap Line.chars ++ last) = readLines (lines.map Line.content ++ [last]) := by
  induction lines with
  | nil =>
      cases blank : Text.isBlank last with
      | true =>
          have isRead : read last = .ok [] := by
            rw [← List.append_nil last, read_append_of_isBlank blank]
            rfl
          simpa [readLines, blank] using isRead
      | false =>
          have isFirst : last.head? = some '\x7b' := starts last (by simp [blank])
          rw [← readLines_lines [] single]
          exact read_of_head?_eq isFirst
  | cons line lines ih =>
      -- A blank line goes with the white space that is taken off; any other line is the first that
      -- counts, so nothing is taken off any more.
      cases blank : Text.isBlank line.content with
      | true =>
          have isBlank : Text.isBlank line.chars = true := by rw [isBlank_chars, blank]
          rw [List.flatMap_cons, List.append_assoc, read_append_of_isBlank isBlank, ih]
          · simp [readLines, blank]
          · intro content found
            apply starts
            simpa [blank] using found
      | false =>
          have isFirst : line.content.head? = some '\x7b' := starts _ (by simp [blank])
          rw [← readLines_lines (line :: lines) single]
          apply read_of_head?_eq
          simp [Line.chars, isFirst]

/-! ## Lines put in -/

namespace Interspersed

variable {records : List FontRecord} {all : List (List Char)}

/-- The first line that is not blank is the first line there was before blank lines were put in. -/
theorem find?_eq (interspersed : Interspersed (fun line => Text.isBlank line = true)
    (records.map Export.line) all) :
    all.find? (!Text.isBlank ·) = records.head?.map Export.line := by
  generalize isLines : records.map Export.line = lines at interspersed
  induction interspersed generalizing records with
  | nil =>
      have isNil : records = [] := List.map_eq_nil_iff.mp isLines
      simp [isNil]
  | kept line others ih =>
      rcases List.map_eq_cons_iff.mp isLines with ⟨record, later, rfl, rfl, -⟩
      simp [isBlank_line]
  | put line isExtra others ih => simpa [isExtra] using ih isLines

/-- The lines of records among blank lines are read, and then the lines after them. -/
theorem readLines_append (spellable : Spellable records)
    (interspersed : Interspersed (fun line => Text.isBlank line = true)
      (records.map Export.line) all) (rest : List (List Char)) :
    readLines (all ++ rest) = (readLines rest).map (records ++ ·) := by
  generalize isLines : records.map Export.line = lines at interspersed
  induction interspersed generalizing records with
  | nil =>
      have isNil : records = [] := List.map_eq_nil_iff.mp isLines
      rw [isNil, List.nil_append]
      cases readLines rest <;> rfl
  | kept line others ih =>
      rcases List.map_eq_cons_iff.mp isLines with ⟨record, later, rfl, rfl, isLater⟩
      have isText := spellable record List.mem_cons_self
      have laterSpellable : ∀ other ∈ later, other.file.text?.isSome := fun other member =>
        spellable other (List.mem_cons_of_mem _ member)
      have isRead := ih laterSpellable isLater
      rw [List.cons_append, readLines, isRead]
      simp only [isBlank_line, readWhole_line isText, Bool.false_eq_true, if_false, bind,
        Except.bind]
      cases readLines rest <;> rfl
  | put line isExtra others ih => simpa [readLines, isExtra] using ih spellable isLines

end Interspersed

/-! ## Edited exports -/

theorem linesText_append (left right : List FontRecord) :
    linesText (left ++ right) = linesText left ++ linesText right :=
  List.flatMap_append

theorem count_lineFeed_linesText {records : List FontRecord} (spellable : Spellable records) :
    (linesText records).count '\n' = records.length := by
  induction records with
  | nil => rfl
  | cons record records ih =>
      have others := ih fun other member => spellable other (List.mem_cons_of_mem _ member)
      have single := lineFeed_not_mem_line (spellable record List.mem_cons_self)
      rw [linesText_cons, List.count_append, List.count_eq_zero.mpr single, List.count_cons_self,
        others, List.length_cons, Nat.zero_add]

theorem head?_line (record : FontRecord) : (line record).head? = some '\x7b' := by
  rcases exists_line_eq record with ⟨inside, isLine⟩
  rw [isLine]
  rfl

/-- An export is a text in lines, one for each record and an empty last one. -/
theorem exists_linedText_eq {records : List FontRecord} (spellable : Spellable records) :
    ∃ text : LinedText, text.chars = linesText records ∧
      text.contents = records.map line ++ [[]] := by
  induction records with
  | nil => exact ⟨⟨[], [], by simp⟩, rfl, rfl⟩
  | cons record records ih =>
      have isText := spellable record List.mem_cons_self
      rcases ih fun other member => spellable other (List.mem_cons_of_mem _ member) with
        ⟨⟨lines, last, single⟩, isChars, isContents⟩
      have noLineFeed := lineFeed_not_mem_line isText
      refine ⟨⟨⟨line record, false, noLineFeed, fun _ => getLast?_line_ne record⟩ :: lines, last,
        single⟩, ?_, ?_⟩
      · rw [linesText_cons, ← isChars]
        simp [LinedText.chars, Line.chars]
      · simpa [LinedText.contents] using isContents

/-- A text whose lines start with those of records among blank ones is read line by line. -/
theorem read_chars {records : List FontRecord} {text : LinedText} {before rest : List (List Char)}
    (isText : text.contents = before ++ rest)
    (interspersed : Interspersed (fun line => Text.isBlank line = true)
      (records.map Export.line) before)
    (starts : records ≠ [] ∨ rest = []) :
    read text.chars = readLines (before ++ rest) := by
  rw [← isText]
  apply read_lines text.lines text.single
  intro content found
  change text.contents.find? _ = _ at found
  rw [isText, List.find?_append, interspersed.find?_eq] at found
  cases records with
  | nil => simp [starts.resolve_left (fun nonempty => nonempty rfl)] at found
  | cons record records =>
      cases Option.some.inj found
      exact head?_line record

/-- Exports with one record on each line can be joined, and survive an editor that works by
lines. -/
structure LineWise (left right : List FontRecord) : Prop where
  written : write (left ++ right) .jsonLines none =
    (⟨Text.Utf8.encode (linesText (left ++ right)), none⟩, none)
  joined : (write (left ++ right) .jsonLines none).1.taken =
    (write left .jsonLines none).1.taken ++ (write right .jsonLines none).1.taken
  count_lineFeed : (linesText (left ++ right)).count '\n' = (left ++ right).length
  lined : ∃ text : LinedText, text.chars = linesText (left ++ right) ∧
    text.contents = (left ++ right).map line ++ [[]]
  read_respaced : ∀ text : LinedText,
    Interspersed (fun line => Text.isBlank line = true) ((left ++ right).map line) text.contents →
      read text.chars = .ok (left ++ right)
  read_rejected : ∀ (text : LinedText) (kept others : List FontRecord)
      (before later : List (List Char)) (rejected : List Char) (fault : Fault),
    kept ++ others = left ++ right → kept ≠ [] →
      text.contents = before ++ rejected :: later →
        Interspersed (fun line => Text.isBlank line = true) (kept.map line) before →
          Text.isBlank rejected = false → readWhole FontRecord.read rejected = .error fault →
            read text.chars = .error fault

theorem lineWise (left right : List FontRecord)
    (leftSpellable : ∀ record ∈ left, record.file.text?.isSome)
    (rightSpellable : ∀ record ∈ right, record.file.text?.isSome) : LineWise left right := by
  have spellable : Spellable (left ++ right) := by
    intro record member
    rcases List.mem_append.mp member with isLeft | isRight
    · exact leftSpellable record isLeft
    · exact rightSpellable record isRight
  refine ⟨write_jsonLines spellable, ?_, count_lineFeed_linesText spellable,
    exists_linedText_eq spellable, ?_, ?_⟩
  · rw [write_jsonLines spellable, write_jsonLines leftSpellable, write_jsonLines rightSpellable,
      linesText_append, Text.Utf8.encode_append]
  · intro text interspersed
    rw [read_chars (List.append_nil _).symm interspersed (Or.inr rfl),
      interspersed.readLines_append spellable]
    simp [readLines, Except.map]
  · intro text kept others before later rejected fault isPart nonempty isText interspersed notBlank
      isRejected
    have keptSpellable : Spellable kept := fun record member =>
      spellable record (isPart ▸ List.mem_append_left others member)
    rw [read_chars isText interspersed (Or.inl nonempty),
      interspersed.readLines_append keptSpellable]
    simp [readLines, notBlank, isRejected, bind, Except.bind, Except.map]

/-- A record whose name has line ends of several kinds. -/
def multiline : FontRecord :=
  FontRecord.ofType1 (Path.ofString "a.pfb") "A\r\n\u0085\u2028"

theorem isText_multiline : multiline.file.text?.isSome := by
  simp [multiline, FontRecord.ofType1, Path.text?, Path.ofString, Path.ofText,
    Text.Utf8.decode?_encode]

/-- Two lines with a record, with ends of both kinds, and a blank line before each of them. -/
def edited : List Line :=
  [ ⟨['\u3000', '\r'], true, by decide, by decide⟩,
    ⟨line multiline, true, lineFeed_not_mem_line isText_multiline, by decide⟩,
    ⟨['\t'], false, by decide, by decide⟩,
    ⟨line multiline, false, lineFeed_not_mem_line isText_multiline,
      fun _ => getLast?_line_ne multiline⟩ ]

theorem lineWise_multiline :
    (∀ record ∈ [multiline], record.file.text?.isSome) ∧
      read (LinedText.chars ⟨edited, ['\u00A0'], by decide⟩) = .ok [multiline, multiline] ∧
      read (LinedText.chars ⟨edited, ['[', ']'], by decide⟩) =
        .error (.invalidLength 0 FontRecord.fieldCount) := by
  have spellable : ∀ record ∈ [multiline], record.file.text?.isSome := by
    simp [isText_multiline]
  have isLineWise := lineWise [multiline] [multiline] spellable spellable
  have interspersed : Interspersed (fun line => Text.isBlank line = true)
      ([multiline, multiline].map line) (edited.map Line.content) :=
    .put _ (by decide) (.kept _ (.put _ (by decide) (.kept _ .nil)))
  refine ⟨spellable, ?_, ?_⟩
  · apply isLineWise.read_respaced
    exact .put _ (by decide) (.kept _ (.put _ (by decide) (.kept _ (.put _ (by decide) .nil))))
  · exact isLineWise.read_rejected _ [multiline, multiline] [] _ [] ['[', ']'] _ rfl (by simp) rfl
      interspersed (by decide) (by decide)

end FontCatalog.Export
