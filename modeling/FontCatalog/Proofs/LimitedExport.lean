import FontCatalog.Catalog
import FontCatalog.Proofs.ExportRoundTrip

/-!
# Exports into a sink with little room

A sink that has room for some bytes only is left with exactly those bytes of the export, wherever
in a document or between two documents the room ends. Which fault is reported is decided by the
first byte that there is no room for: each byte of an export belongs to a JSON value or to the
export itself, which writes the line ends after the values and the lines of a listing.

The writer goes step by step, and a step may be any part of a JSON value. The proof follows the
steps with the bytes of each marked by the one they belong to, and only then looks at which steps
make up a layout.
-/

namespace FontCatalog.Export

open Json

variable {records : List FontRecord} {layout : Layout}

/-- What a byte of an export belongs to. -/
inductive Author where
  /-- A JSON value. -/
  | value
  /-- The export itself. -/
  | own

/-- The fault of having no room for a byte. -/
def Author.fault : Author → WriteFault
  | value => .fullInJson
  | own => .fullInText

/-- The bytes of a text that belong to one author. -/
def authoredBy (author : Author) (chars : List Char) : List (UInt8 × Author) :=
  (Text.Utf8.encode chars).map (·, author)

/-- The bytes of an export, each with what it belongs to. -/
def authored (records : List FontRecord) : Layout → List (UInt8 × Author)
  | .json =>
      authoredBy .value (spelling (Document.array (records.map FontRecord.document) .indented 0)) ++
        authoredBy .own ['\n']
  | .jsonLines =>
      records.flatMap fun record => authoredBy .value (line record) ++ authoredBy .own ['\n']
  | .listing => records.flatMap fun record => authoredBy .own (record.display.toList ++ ['\n'])

@[simp]
theorem map_fst_authoredBy (author : Author) (chars : List Char) :
    (authoredBy author chars).map Prod.fst = Text.Utf8.encode chars := by
  simp [authoredBy, Function.comp_def]

theorem authoredBy_append (author : Author) (left right : List Char) :
    authoredBy author (left ++ right) = authoredBy author left ++ authoredBy author right := by
  simp [authoredBy, Text.Utf8.encode_append]

/-! ## Steps -/

namespace Step

/-- What the bytes of a step belong to. -/
def author : Step → Author
  | json _ => .value
  | own _ => .own

/-- The bytes of a step, each with what it belongs to. -/
def authored (step : Step) : List (UInt8 × Author) :=
  authoredBy step.author step.chars

end Step

theorem flatMap_authored_map_json (fragments : List Fragment) :
    (fragments.map Step.json).flatMap Step.authored = authoredBy .value (spelling fragments) := by
  induction fragments with
  | nil => rfl
  | cons fragment fragments ih =>
      have first : spelling (fragment :: fragments) = fragment.chars ++ spelling fragments := rfl
      rw [List.map_cons, List.flatMap_cons, ih, first, authoredBy_append]
      rfl

theorem map_fst_flatMap_authored (steps : List Step) :
    (steps.flatMap Step.authored).map Prod.fst =
      Text.Utf8.encode (steps.flatMap Step.chars) := by
  simp [List.map_flatMap, Step.authored, Text.Utf8.encode, List.flatMap_assoc]

/-- The steps of a layout write the bytes of the layout. -/
theorem flatMap_authored_steps (records : List FontRecord) (layout : Layout) :
    (steps records layout).flatMap Step.authored = authored records layout := by
  cases layout with
  | json =>
      simp [steps, authored, flatMap_authored_map_json, Step.authored, Step.author, Step.chars]
  | jsonLines =>
      simp [steps, authored, List.flatMap_assoc, flatMap_authored_map_json, Step.authored,
        Step.author, Step.chars, line]
  | listing =>
      simp [steps, authored, List.flatMap_map, Step.authored, Step.author, Step.chars]

/-! ## Runs -/

theorem run_cons {step : Step} (whole : step ≠ .json .pathNotText) (sink : Sink)
    (steps : List Step) :
    run sink (step :: steps) =
      match sink.take (Text.Utf8.encode step.chars) with
      | (next, true) => run next steps
      | (next, false) => (next, some step.author.fault) := by
  cases step with
  | own chars => rfl
  | json fragment =>
      cases fragment with
      | text chars => rfl
      | pathNotText => exact (whole rfl).elim

theorem take_of_le {bytes : Bytes} {room : Nat} (enough : bytes.length ≤ room) (taken : Bytes) :
    (Sink.mk taken (some room)).take bytes =
      (⟨taken ++ bytes, some (room - bytes.length)⟩, true) := by
  simp [Sink.take, List.take_of_length_le enough, enough]

theorem take_of_lt {bytes : Bytes} {room : Nat} (short : room < bytes.length) (taken : Bytes) :
    (Sink.mk taken (some room)).take bytes = (⟨taken ++ bytes.take room, some 0⟩, false) := by
  have full : room - bytes.length = 0 := by omega
  simp [Sink.take, full, Nat.not_le.mpr short]

/-- A run of steps that do not fail leaves a limited sink with as many of their bytes as there is
room for, and ends with the fault of the first byte beyond them. -/
theorem run_limited {steps : List Step} (whole : Step.json .pathNotText ∉ steps)
    (taken : Bytes) (room : Nat) :
    run ⟨taken, some room⟩ steps =
      (⟨taken ++ ((steps.flatMap Step.authored).map Prod.fst).take room,
          some (room - (steps.flatMap Step.authored).length)⟩,
        ((steps.flatMap Step.authored)[room]?).map fun (_, author) => author.fault) := by
  induction steps generalizing taken room with
  | nil => simp [run]
  | cons step steps ih =>
      rw [List.mem_cons, not_or] at whole
      have length_eq : step.authored.length = (Text.Utf8.encode step.chars).length := by
        simp [Step.authored, authoredBy]
      rw [run_cons (Ne.symm whole.1), List.flatMap_cons, List.map_append, List.length_append,
        length_eq, List.take_append, Step.authored, map_fst_authoredBy]
      -- The room ends within this step, and nothing later is written, or it ends further on.
      rcases Nat.lt_or_ge room (Text.Utf8.encode step.chars).length with short | enough
      · have inside : ((authoredBy step.author step.chars ++ steps.flatMap Step.authored)[room]?) =
            some ((Text.Utf8.encode step.chars)[room], step.author) := by
          rw [List.getElem?_append_left (length_eq ▸ short)]
          simp [authoredBy, short]
        have full : room - ((Text.Utf8.encode step.chars).length +
            (steps.flatMap Step.authored).length) = 0 := by omega
        simp only [take_of_lt short, inside, full, Nat.sub_eq_zero_of_le (Nat.le_of_lt short),
          List.take_zero, List.append_nil, Option.map_some]
      · have beyond : ((authoredBy step.author step.chars ++ steps.flatMap Step.authored)[room]?) =
            (steps.flatMap Step.authored)[room - (Text.Utf8.encode step.chars).length]? := by
          rw [List.getElem?_append_right (length_eq ▸ enough)]
          exact congrArg _ (congrArg _ length_eq)
        simp only [take_of_le enough, ih whole.2, beyond, List.take_of_length_le enough,
          List.append_assoc, Nat.sub_sub]

/-- A run never gets past a step that fails. -/
theorem run_ne_none {steps : List Step} (fails : Step.json .pathNotText ∈ steps) (sink : Sink) :
    (run sink steps).2 ≠ none := by
  induction steps generalizing sink with
  | nil => cases fails
  | cons step steps ih =>
      by_cases whole : step = .json .pathNotText
      · simp [whole, run]
      · have later : Step.json .pathNotText ∈ steps := by
          rcases List.mem_cons.mp fails with here | later
          · exact absurd here.symm whole
          · exact later
        rw [run_cons whole]
        split
        · exact ih later _
        · simp

/-! ## Paths that are no texts -/

theorem pathNotText_mem_document {record : FontRecord} (notText : ¬record.file.text?.isSome)
    (style : Style) (depth : Nat) : Fragment.pathNotText ∈ record.document style depth := by
  have absent : record.file.text? = none := by simpa using notText
  simp [FontRecord.document, Document.object, Document.members, absent, Document.path]

theorem mem_elements {fragment : Fragment} {document : Document} {documents : List Document}
    (member : document ∈ documents) (style : Style) (depth : Nat) (isFirst : Bool)
    (inside : fragment ∈ document style (depth + 1)) :
    fragment ∈ Document.elements style depth isFirst documents := by
  induction documents generalizing isFirst with
  | nil => cases member
  | cons first documents ih =>
      rcases List.mem_cons.mp member with rfl | later
      · simp [Document.elements, inside]
      · simp [Document.elements, ih later false]

theorem pathNotText_mem_steps (notListing : layout ≠ .listing) (notSpellable : ¬Spellable records) :
    Step.json .pathNotText ∈ steps records layout := by
  simp only [Spellable, not_forall] at notSpellable
  rcases notSpellable with ⟨record, member, notText⟩
  cases layout with
  | listing => exact absurd rfl notListing
  | jsonLines =>
      have inside := pathNotText_mem_document notText .compact 0
      apply List.mem_flatMap.mpr
      exact ⟨record, member, by simp [inside]⟩
  | json =>
      have inside := mem_elements (List.mem_map_of_mem (f := FontRecord.document) member) .indented
        0 true (pathNotText_mem_document notText .indented 1)
      have nonempty : records ≠ [] := List.ne_nil_of_mem member
      simp [steps, Document.array, nonempty, inside]

/-! ## Limits -/

/-- An export with room for a limited number of bytes leaves exactly the first of them, and ends
without a fault exactly when these are all. The fault is that of the first byte left out. -/
structure KeepsPrefix (records : List FontRecord) (layout : Layout) (limit : Nat) : Prop where
  unlimited : write records layout none = (⟨(authored records layout).map Prod.fst, none⟩, none)
  listed : layout = .listing → (write records layout none).1.taken =
    Text.Utf8.encode (Catalog.listing ⟨records⟩).toList
  taken_eq : (write records layout (some limit)).1.taken =
    (write records layout none).1.taken.take limit
  succeeds_iff : (write records layout (some limit)).2 = none ↔
    (write records layout none).1.taken.length ≤ limit
  fault_iff : ∀ fault, (write records layout (some limit)).2 = some fault ↔
    ∃ byte author, (authored records layout)[limit]? = some (byte, author) ∧ author.fault = fault

theorem toList_listing (records : List FontRecord) :
    (Catalog.listing ⟨records⟩).toList =
      records.flatMap fun record => record.display.toList ++ ['\n'] := by
  simp [Catalog.listing, String.toList_join, List.flatMap_map]

theorem map_fst_authored_listing (records : List FontRecord) :
    (authored records .listing).map Prod.fst =
      Text.Utf8.encode (Catalog.listing ⟨records⟩).toList := by
  rw [toList_listing]
  simp [authored, List.map_flatMap, Text.Utf8.encode, List.flatMap_assoc]

theorem keepsPrefix (spellable : layout = .listing ∨ Spellable records) (limit : Nat) :
    KeepsPrefix records layout limit := by
  have whole := pathNotText_not_mem_steps spellable
  have unlimited : write records layout none =
      (⟨(authored records layout).map Prod.fst, none⟩, none) := by
    rw [write_unlimited spellable, ← flatMap_authored_steps, map_fst_flatMap_authored]
  have limited := run_limited whole [] limit
  rw [flatMap_authored_steps, List.nil_append] at limited
  constructor
  · exact unlimited
  · rintro rfl
    rw [unlimited, map_fst_authored_listing]
  · rw [unlimited, write, Sink.empty, limited]
  · rw [unlimited, write, Sink.empty, limited]
    simp
  · intro fault
    rw [write, Sink.empty, limited]
    simp

/-- What becomes of an export into a sink with limited room: it keeps a prefix, unless a JSON layout
is asked for and some path is no text, which no room helps against. -/
theorem write_limited (records : List FontRecord) (layout : Layout) (limit : Nat) :
    (layout = .listing ∨ (∀ record ∈ records, record.file.text?.isSome) →
        KeepsPrefix records layout limit) ∧
      (layout ≠ .listing → (∃ record ∈ records, record.file.text? = none) →
        ∀ room, (write records layout room).2 ≠ none) := by
  constructor
  · intro spellable
    exact keepsPrefix spellable limit
  · rintro notListing ⟨record, member, notText⟩ room
    apply run_ne_none
    apply pathNotText_mem_steps notListing
    intro spellable
    simpa [notText] using spellable record member

/-- A record whose path is a text. -/
def spelled : FontRecord :=
  FontRecord.ofType1 (Path.ofString "é.pfb") "E"

/-- A record whose path is no text. -/
def unspelled : FontRecord :=
  FontRecord.ofType1 ⟨[0xFF]⟩ "F"

theorem write_limited_specimens :
    (∀ record ∈ [spelled], record.file.text?.isSome) ∧ KeepsPrefix [spelled] .json 40 ∧
      KeepsPrefix [spelled] .jsonLines 40 ∧
      (∃ record ∈ [spelled, unspelled], record.file.text? = none) ∧
      KeepsPrefix [spelled, unspelled] .listing 17 ∧
      (write [spelled, unspelled] .jsonLines (some 1000)).2 ≠ none := by
  have isText : ∀ record ∈ [spelled], record.file.text?.isSome := by
    simp [spelled, FontRecord.ofType1, Path.text?, Path.ofString, Path.ofText,
      Text.Utf8.decode?_encode]
  have notText : ∃ record ∈ [spelled, unspelled], record.file.text? = none :=
    ⟨unspelled, by simp, by decide⟩
  refine ⟨isText, ?_, ?_, notText, ?_, ?_⟩
  · exact (write_limited [spelled] .json 40).1 (Or.inr isText)
  · exact (write_limited [spelled] .jsonLines 40).1 (Or.inr isText)
  · exact (write_limited [spelled, unspelled] .listing 17).1 (Or.inl rfl)
  · exact (write_limited [spelled, unspelled] .jsonLines 1000).2 (by decide) notText (some 1000)

end FontCatalog.Export
