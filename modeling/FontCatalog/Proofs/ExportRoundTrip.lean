import FontCatalog.Export.Reader
import FontCatalog.Export.Writer
import FontCatalog.Proofs.Pieces
import FontCatalog.Proofs.RecordDocuments

/-!
# Exports that are read back

An export in one of the two JSON layouts is read back as the records that were written, in their
order. The reader tells the layouts apart by the first character of the text, and in the layout
with one record on each line it relies on no record having a line feed of its own; both hold
whatever the names and paths of the records are.
-/

namespace FontCatalog.Export

open Json

variable {records : List FontRecord} {record : FontRecord} {rest : List Char}

/-! ## Texts and their steps -/

/-- The text of an array of records. -/
def arrayText (records : List FontRecord) : List Char :=
  spelling (Document.array (records.map FontRecord.document) .indented 0) ++ ['\n']

/-- The line of a record, without its line end. -/
def line (record : FontRecord) : List Char :=
  spelling (record.document .compact 0)

/-- The text of records on lines of their own. -/
def linesText (records : List FontRecord) : List Char :=
  records.flatMap fun record => line record ++ ['\n']

/-- The paths of all files are texts. -/
def Spellable (records : List FontRecord) : Prop :=
  ∀ record ∈ records, record.file.text?.isSome

theorem legible_array (spellable : Spellable records) :
    (Document.array (records.map FontRecord.document)).Legible := by
  apply Document.legible_array
  rw [List.forall_mem_map]
  intro record member
  exact FontRecord.legible_document (spellable record member)

/-- No step fails for the sake of a path, unless a JSON layout has a path that is no text. -/
theorem pathNotText_not_mem_steps {layout : Layout}
    (spellable : layout = .listing ∨ Spellable records) :
    Step.json .pathNotText ∉ steps records layout := by
  cases layout with
  | listing => simp [steps]
  | json =>
      have isSpellable : Spellable records := spellable.resolve_left (by simp)
      have whole := (legible_array isSpellable).whole .indented 0
      simpa [steps] using whole
  | jsonLines =>
      have isSpellable : Spellable records := spellable.resolve_left (by simp)
      intro fails
      simp only [steps, List.mem_flatMap] at fails
      rcases fails with ⟨record, member, fails⟩
      have whole := (FontRecord.legible_document (isSpellable record member)).whole .compact 0
      simp [whole] at fails

/-- The text of a step; a step that fails has none. -/
def Step.chars : Step → List Char
  | json fragment => fragment.chars
  | own chars => chars

theorem flatMap_chars_map_json (fragments : List Fragment) :
    (fragments.map Step.json).flatMap Step.chars = spelling fragments := by
  rw [List.flatMap_map]
  rfl

theorem linesText_cons (record : FontRecord) (records : List FontRecord) :
    linesText (record :: records) = line record ++ '\n' :: linesText records := by
  simp [linesText]

/-! ## Writing without bounds -/

/-- A sink without bounds takes the texts of all steps, if none of them fails. -/
theorem run_unlimited {steps : List Step} (whole : Step.json .pathNotText ∉ steps)
    (taken : Bytes) :
    run ⟨taken, none⟩ steps =
      (⟨taken ++ Text.Utf8.encode (steps.flatMap Step.chars), none⟩, none) := by
  induction steps generalizing taken with
  | nil => simp [run, Text.Utf8.encode]
  | cons step steps ih =>
      rw [List.mem_cons, not_or] at whole
      have first : run ⟨taken, none⟩ (step :: steps) =
          run ⟨taken ++ Text.Utf8.encode step.chars, none⟩ steps := by
        cases step with
        | own chars => rfl
        | json fragment =>
            cases fragment with
            | text chars => rfl
            | pathNotText => exact (whole.1 rfl).elim
      rw [first, ih whole.2, List.flatMap_cons, Text.Utf8.encode_append, List.append_assoc]

theorem write_unlimited {layout : Layout} (spellable : layout = .listing ∨ Spellable records) :
    write records layout none =
      (⟨Text.Utf8.encode ((steps records layout).flatMap Step.chars), none⟩, none) := by
  rw [write, Sink.empty, run_unlimited (pathNotText_not_mem_steps spellable), List.nil_append]

theorem write_json (spellable : Spellable records) :
    write records .json none = (⟨Text.Utf8.encode (arrayText records), none⟩, none) := by
  rw [write_unlimited (Or.inr spellable), steps, List.flatMap_append, flatMap_chars_map_json]
  rfl

theorem write_jsonLines (spellable : Spellable records) :
    write records .jsonLines none = (⟨Text.Utf8.encode (linesText records), none⟩, none) := by
  rw [write_unlimited (Or.inr spellable), steps, List.flatMap_assoc]
  simp only [List.flatMap_append, flatMap_chars_map_json]
  rfl

/-! ## Reading lines -/

theorem pieces_line {line : List Char} (single : '\n' ∉ line) :
    pieces (· == '\n') line = [line] := by
  apply pieces_eq_singleton
  intro char inside
  rw [beq_eq_false_iff_ne]
  rintro rfl
  exact single inside

theorem linesOfPieces_append (before : List (List Char)) (first : List Char)
    (others : List (List Char)) :
    Text.linesOfPieces (before ++ first :: others) =
      before.map Text.dropCarriageReturn ++ Text.linesOfPieces (first :: others) := by
  induction before with
  | nil => rfl
  | cons line before ih =>
      -- What follows a line is not empty, so the line is not the last one.
      rcases List.exists_cons_of_ne_nil (List.append_ne_nil_of_right_ne_nil before
        (List.cons_ne_nil first others)) with ⟨next, later, isRest⟩
      rw [isRest] at ih
      rw [List.cons_append, isRest, Text.linesOfPieces, ih]
      · rfl
      · exact List.cons_ne_nil next later

/-- The lines up to a line feed, which need not be the first one, are split off. -/
theorem lines_append_cons (text rest : List Char) :
    Text.lines (text ++ '\n' :: rest) =
      (pieces (· == '\n') text).map Text.dropCarriageReturn ++ Text.lines rest := by
  rcases exists_pieces_eq_cons (· == '\n') rest with ⟨first, others, isPieces⟩
  rw [Text.lines, Text.lines, pieces_append_cons (· == '\n') (beq_self_eq_true '\n'), isPieces,
    linesOfPieces_append]

/-- A line is split off at its line feed. -/
theorem lines_append_lineFeed {line : List Char} (single : '\n' ∉ line) (rest : List Char) :
    Text.lines (line ++ '\n' :: rest) = Text.dropCarriageReturn line :: Text.lines rest := by
  rw [lines_append_cons, pieces_line single]
  rfl

theorem dropCarriageReturn_eq {line : List Char} (noReturn : line.getLast? ≠ some '\r') :
    Text.dropCarriageReturn line = line := by
  rw [Text.dropCarriageReturn, if_neg noReturn]

theorem exists_compact_object_eq (members : List (String × Document)) :
    ∃ inside, spelling (Document.object members .compact 0) = '\x7b' :: inside ++ ['\x7d'] := by
  refine ⟨spelling (Document.members .compact 0 true members), ?_⟩
  simp [Document.object, Style.lineStart]

theorem exists_line_eq (record : FontRecord) :
    ∃ inside, line record = '\x7b' :: inside ++ ['\x7d'] :=
  exists_compact_object_eq _

theorem isBlank_line (record : FontRecord) : Text.isBlank (line record) = false := by
  rcases exists_line_eq record with ⟨inside, isLine⟩
  rw [isLine]
  rfl

theorem getLast?_line_ne (record : FontRecord) : (line record).getLast? ≠ some '\r' := by
  rcases exists_line_eq record with ⟨inside, isLine⟩
  rw [isLine, List.getLast?_concat]
  decide

theorem lineFeed_not_mem_line (isText : record.file.text?.isSome) : '\n' ∉ line record :=
  (FontRecord.legible_document isText).single 0

theorem readWhole_line (isText : record.file.text?.isSome) :
    readWhole FontRecord.read (line record) = .ok record := by
  rcases FontRecord.readsAs_of_encodedBy (FontRecord.encodedBy_document isText .compact 0) with
    ⟨isValue, readsAs⟩
  have isRead := readsAs (isValue.skipBlanks_append []) follows_nil
  rw [List.append_nil] at isRead
  exact readWhole_of_read isRead rfl

theorem readLines_linesText (spellable : Spellable records) :
    readLines (Text.lines (linesText records)) = .ok records := by
  induction records with
  | nil => rfl
  | cons record records ih =>
      have isText := spellable record List.mem_cons_self
      have others := ih fun other member => spellable other (List.mem_cons_of_mem _ member)
      rw [linesText_cons, lines_append_lineFeed (lineFeed_not_mem_line isText),
        dropCarriageReturn_eq (getLast?_line_ne record), readLines]
      simp [isBlank_line, readWhole_line isText, others, bind, Except.bind]

theorem read_linesText (spellable : Spellable records) :
    read (linesText records) = .ok records := by
  have isRead := readLines_linesText spellable
  cases records with
  | nil => rfl
  | cons record records =>
      rcases exists_line_eq record with ⟨inside, isLine⟩
      rw [linesText_cons, isLine] at isRead ⊢
      exact isRead

theorem read_arrayText (spellable : Spellable records) :
    read (arrayText records) = .ok records := by
  have encoded : List.Forall₂ (fun item record => record.EncodedBy item.value)
      ((records.map FontRecord.document).map (Document.item .indented 0)) records := by
    rw [List.map_map, List.forall₂_map_left_iff, List.forall₂_same]
    intro record member
    exact FontRecord.encodedBy_document (spellable record member) .indented 1
  rcases Document.exists_spelling_array (records.map FontRecord.document) .indented 0 with
    ⟨last, isArray⟩
  have isRead := FontRecord.readArray_of_encodedBy encoded
    (skipBlanks_of_not_isBlank rfl _ : skipBlanks (Json.arrayText _ last ++ ['\n']) = _)
  rw [arrayText, isArray]
  exact readWhole_of_read isRead rfl

/-- Records whose paths are texts survive an export in either of the JSON layouts. -/
theorem read_write (records : List FontRecord)
    (spellable : ∀ record ∈ records, record.file.text?.isSome) (layout : Layout)
    (isJson : layout = .json ∨ layout = .jsonLines) :
    (write records layout none).2 = none ∧
      ∃ text, Text.Utf8.decode? (write records layout none).1.taken = some text ∧
        read text = .ok records := by
  rcases isJson with rfl | rfl
  · rw [write_json spellable]
    exact ⟨rfl, arrayText records, Text.Utf8.decode?_encode _, read_arrayText spellable⟩
  · rw [write_jsonLines spellable]
    exact ⟨rfl, linesText records, Text.Utf8.decode?_encode _, read_linesText spellable⟩

/-- A record with as much as possible to escape and the numbers at the ends of their ranges, and one
of which only the name is known. -/
def specimens : List FontRecord :=
  [ { file := Path.ofString "/fonts/\"\\\r\n\u007F😀.otf"
      format := .openType
      postscriptName := "\u0000\u001F\u0085\u2028[null,"
      cidSystemInfo := some ⟨"Adobe", "Japan\t1", -6⟩
      weightClass := 0x7FFFFFFF
      familyClass := -0x80000000
      codePageRange1 := 0xFFFFFFFF
      codePageRange2 := 0
      macStyle := -1
      panose := some ⟨2, 11, 6, 0, 0, 0, 0, 0, 9, 255⟩ },
    FontRecord.ofType1 (Path.ofString "b.pfb") "" ]

theorem read_write_specimens :
    (∀ record ∈ specimens, record.file.text?.isSome) ∧
      ((write specimens .json none).2 = none ∧
        ∃ text, Text.Utf8.decode? (write specimens .json none).1.taken = some text ∧
          read text = .ok specimens) ∧
      ((write specimens .jsonLines none).2 = none ∧
        ∃ text, Text.Utf8.decode? (write specimens .jsonLines none).1.taken = some text ∧
          read text = .ok specimens) := by
  have spellable : ∀ record ∈ specimens, record.file.text?.isSome := by
    simp [specimens, FontRecord.ofType1, Path.text?, Path.ofString, Path.ofText,
      Text.Utf8.decode?_encode]
  exact ⟨spellable, read_write specimens spellable .json (Or.inl rfl),
    read_write specimens spellable .jsonLines (Or.inr rfl)⟩

end FontCatalog.Export
