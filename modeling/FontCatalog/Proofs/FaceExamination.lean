import FontCatalog.Proofs.RecordInvariant

/-!
# What the examination of a face decides

A face without a naming table, a PostScript name or a style has no record, and nothing else of it
is looked at. The outlines of a complete face count if its version says that it is OpenType, and
then broken ones are a fault. Where no outlines count, a `gcid` table does, and is a fault if it is
too short. `Fails` and `IsRecord` say this without an order of tests; the examination agrees with
them, and what they do not mention does not change it.
-/

namespace FontCatalog

theorem Gcid.read_eq_error_iff {bytes : Bytes} {fault : GcidTooShort} :
    read bytes = .error fault ↔ bytes.length < 142 ∧ fault = ⟨bytes.length⟩ := by
  simp only [read, minimumSize]
  by_cases short : bytes.length < 142 <;> simp [short, eq_comm]

namespace Face

variable {Fault : Type} {face : Face Fault} {file : Path} {record : FontRecord}

/-- The fault of a face, or its record, if it has one. -/
def outcome (face : Face Fault) (file : Path) : Except (FaceFault Fault) (Option FontRecord) :=
  (face.examine file).map Examination.record?

/-! ## The specification -/

/-- The face has what a record cannot do without: a naming table, a PostScript name, a style. -/
structure Complete (face : Face Fault) (name : String) (style : UInt16) : Prop where
  hasNamingTable : face.hasNamingTable = true
  postscriptName_eq : face.postscriptName = some name
  macStyle_eq : face.macStyle = some style

/-- The outlines of the face count. -/
def HasOutlines (face : Face Fault) (outlines : Cff.Outlines) : Prop :=
  face.isOpenType = true ∧ face.outlines = .ok (some outlines)

/-- There are no outlines that count. -/
def LacksOutlines (face : Face Fault) : Prop :=
  face.isOpenType = false ∨ face.outlines = .ok none

/-- The fault of a complete face. -/
inductive Fails (face : Face Fault) : FaceFault Fault → Prop
  | outlines {fault : Fault} (isOpenType : face.isOpenType = true)
      (broken : face.outlines = .error fault) : Fails face (.outlines fault)
  | gcid {table : Bytes} (lacks : face.LacksOutlines) (present : face.gcid = some table)
      (short : table.length < 142) : Fails face (.gcid ⟨table.length⟩)

/-- The format of a face and its character collection. -/
inductive HasFormat (face : Face Fault) : FontFormat → Option CidSystemInfo → Prop
  | openType {outlines : Cff.Outlines} (has : face.HasOutlines outlines) :
      HasFormat face .openType outlines.cid
  | plain (lacks : face.LacksOutlines) (absent : face.gcid = none) :
      HasFormat face .trueType none
  | gcid {table : Bytes} {info : CidSystemInfo} (lacks : face.LacksOutlines)
      (present : face.gcid = some table) (isInfo : Gcid.read table = .ok info) :
      HasFormat face .trueType (some info)

/-- The record has the classification of the typeface, if there is one. -/
def Classifies (record : FontRecord) : Option Sfnt.Os2 → Prop
  | some os2 =>
      record.weightClass.toInt = os2.weightClass.toNat ∧
        record.familyClass.toInt = os2.familyClass.toInt ∧
        record.codePageRange1 = os2.codePageRange1.getD 0 ∧
        record.codePageRange2 = os2.codePageRange2.getD 0 ∧
        record.panose = os2.panose
  | none =>
      record.weightClass = -1 ∧ record.familyClass = -1 ∧ record.codePageRange1 = 0 ∧
        record.codePageRange2 = 0 ∧ record.panose = none

/-- The record is the one of a face in a file: it tells what the tables of the face tell. -/
structure IsRecord (face : Face Fault) (file : Path) (record : FontRecord) : Prop where
  file_eq : record.file = file
  complete : ∃ style, face.Complete record.postscriptName style ∧
    record.macStyle.toInt = style.toNat
  hasFormat : face.HasFormat record.format record.cidSystemInfo
  classifies : Classifies record face.os2

/-! ## Format and character collection -/

variable {name : String} {style : UInt16} {format : FontFormat} {info : Option CidSystemInfo}
  {fault : FaceFault Fault}

theorem formatAndCollection_of_lacksOutlines (lacks : face.LacksOutlines) :
    face.formatAndCollection = { face with isOpenType := false }.formatAndCollection := by
  rcases lacks with notOpenType | absent
  · simp [formatAndCollection, notOpenType]
  · simp [formatAndCollection, absent]

theorem HasFormat.formatAndCollection_eq (hasFormat : face.HasFormat format info) :
    face.formatAndCollection = .ok (format, info) := by
  cases hasFormat with
  | openType has => simp [formatAndCollection, has.1, has.2]
  | plain lacks absent =>
      rw [formatAndCollection_of_lacksOutlines lacks]
      simp [formatAndCollection, absent]
  | gcid lacks present isInfo =>
      rw [formatAndCollection_of_lacksOutlines lacks]
      simp [formatAndCollection, present, isInfo]

theorem Fails.formatAndCollection_eq (fails : face.Fails fault) :
    face.formatAndCollection = .error fault := by
  cases fails with
  | outlines isOpenType broken => simp [formatAndCollection, isOpenType, broken]
  | gcid lacks present short =>
      have notRead := Gcid.read_eq_error_iff.mpr ⟨short, rfl⟩
      rw [formatAndCollection_of_lacksOutlines lacks]
      simp [formatAndCollection, present, notRead]

theorem outlines_cases (face : Face Fault) :
    (∃ outlines, face.HasOutlines outlines) ∨ face.LacksOutlines ∨
      ∃ fault, face.isOpenType = true ∧ face.outlines = .error fault := by
  cases isOpenType : face.isOpenType with
  | false => exact Or.inr (Or.inl (Or.inl isOpenType))
  | true =>
      cases found : face.outlines with
      | error fault => exact Or.inr (Or.inr ⟨fault, rfl, rfl⟩)
      | ok outlines? =>
          cases outlines? with
          | none => exact Or.inr (Or.inl (Or.inr found))
          | some outlines => exact Or.inl ⟨outlines, isOpenType, found⟩

theorem hasFormat_or_fails (face : Face Fault) :
    (∃ format info, face.HasFormat format info) ∨ ∃ fault, face.Fails fault := by
  rcases face.outlines_cases with ⟨outlines, has⟩ | lacks | ⟨fault, isOpenType, broken⟩
  · exact Or.inl ⟨_, _, .openType has⟩
  · cases present : face.gcid with
    | none => exact Or.inl ⟨_, _, .plain lacks present⟩
    | some table =>
        cases isInfo : Gcid.read table with
        | ok info => exact Or.inl ⟨_, _, .gcid lacks present isInfo⟩
        | error fault =>
            exact Or.inr ⟨_, .gcid lacks present (Gcid.read_eq_error_iff.mp isInfo).1⟩
  · exact Or.inr ⟨_, .outlines isOpenType broken⟩

theorem formatAndCollection_eq_error_iff :
    face.formatAndCollection = .error fault ↔ face.Fails fault := by
  constructor
  · intro failed
    rcases face.hasFormat_or_fails with ⟨_, _, hasFormat⟩ | ⟨_, fails⟩
    · rw [hasFormat.formatAndCollection_eq] at failed
      cases failed
    · rw [fails.formatAndCollection_eq] at failed
      cases failed
      exact fails
  · intro fails
    exact fails.formatAndCollection_eq

theorem LacksOutlines.not_hasOutlines (lacks : face.LacksOutlines)
    (outlines : Cff.Outlines) : ¬face.HasOutlines outlines := by
  rintro ⟨isOpenType, found⟩
  rcases lacks with notOpenType | absent
  · simp [isOpenType] at notOpenType
  · simp [found] at absent

theorem HasFormat.openType_iff (hasFormat : face.HasFormat format info) :
    format = .openType ↔ ∃ outlines, face.HasOutlines outlines := by
  cases hasFormat with
  | openType has => exact iff_of_true rfl ⟨_, has⟩
  | plain lacks absent => simp [lacks.not_hasOutlines]
  | gcid lacks present isInfo => simp [lacks.not_hasOutlines]

/-! ## Records -/

theorem classifies_record (face : Face Fault) :
    Classifies (face.record file name style format info) face.os2 := by
  cases isOs2 : face.os2 with
  | none => simp [Classifies, record, isOs2]
  | some os2 =>
      simp only [Classifies, record, isOs2, Option.map_some, Option.getD_some, Option.bind_some]
      simp only [toInt_ofNat_toNat, Int16.toInt_toInt32, and_self]

theorem isRecord_record (complete : face.Complete name style)
    (hasFormat : face.HasFormat format info) :
    face.IsRecord file (face.record file name style format info) where
  file_eq := rfl
  complete := ⟨style, complete, toInt_ofNat_toNat style⟩
  hasFormat := hasFormat
  classifies := classifies_record face

theorem IsRecord.eq_record (isRecord : face.IsRecord file record)
    (complete : face.Complete record.postscriptName style) :
    record = face.record file record.postscriptName style record.format record.cidSystemInfo := by
  rcases isRecord with ⟨fileEq, ⟨other, otherComplete, isStyle⟩, -, classifies⟩
  have sameStyle := otherComplete.macStyle_eq
  rw [complete.macStyle_eq] at sameStyle
  cases sameStyle
  have macStyleEq : record.macStyle = Int32.ofNat style.toNat := by
    rw [← Int32.toInt_inj, isStyle, toInt_ofNat_toNat]
  rcases record with ⟨_, _, _, _, weightClass, familyClass, _, _, _, _⟩
  subst fileEq macStyleEq
  cases isOs2 : face.os2 with
  | none =>
      simp only [isOs2, Classifies] at classifies
      simp [Face.record, isOs2, classifies]
  | some os2 =>
      simp only [isOs2, Classifies] at classifies
      rcases classifies with ⟨isWeight, isFamily, rfl, rfl, rfl⟩
      rw [← toInt_ofNat_toNat, Int32.toInt_inj] at isWeight
      rw [← Int16.toInt_toInt32, Int32.toInt_inj] at isFamily
      simp [Face.record, isOs2, isWeight, isFamily]

/-! ## Outcomes -/

/-- The face lacks what every record needs. -/
def Incomplete (face : Face Fault) : Prop :=
  face.hasNamingTable = false ∨ face.postscriptName = none ∨ face.macStyle = none

theorem incomplete_or_complete (face : Face Fault) :
    face.Incomplete ∨ ∃ name style, face.Complete name style := by
  cases hasTable : face.hasNamingTable with
  | false => exact Or.inl (Or.inl hasTable)
  | true =>
      cases isName : face.postscriptName with
      | none => exact Or.inl (Or.inr (Or.inl isName))
      | some name =>
          cases isStyle : face.macStyle with
          | none => exact Or.inl (Or.inr (Or.inr isStyle))
          | some style => exact Or.inr ⟨name, style, hasTable, isName, isStyle⟩

theorem Complete.not_incomplete (complete : face.Complete name style) : ¬face.Incomplete := by
  rcases complete with ⟨hasTable, isName, isStyle⟩
  simp [Incomplete, hasTable, isName, isStyle]

theorem outcome_of_incomplete (incomplete : face.Incomplete) (file : Path) :
    face.outcome file = .ok none := by
  simp only [outcome, examine]
  rcases incomplete with noTable | noName | noStyle
  · simp [noTable, Except.map, Examination.record?]
  · cases face.hasNamingTable <;> simp [noName, Except.map, Examination.record?]
  · cases face.hasNamingTable <;> cases face.postscriptName <;>
      simp [noStyle, Except.map, Examination.record?]

theorem outcome_of_complete (complete : face.Complete name style) (file : Path) :
    face.outcome file = face.formatAndCollection.map fun (format, info) =>
      some (face.record file name style format info) := by
  rcases complete with ⟨hasTable, isName, isStyle⟩
  simp only [outcome, examine, hasTable, isName, isStyle, if_true]
  cases face.formatAndCollection <;> rfl

/-- The outlines and the `gcid` table of a complete face count only for its format and character
collection, and those of another face for nothing. -/
theorem outcome_congr {other : Face Fault}
    (sameTable : other.hasNamingTable = face.hasNamingTable)
    (sameName : other.postscriptName = face.postscriptName)
    (sameStyle : other.macStyle = face.macStyle) (sameOs2 : other.os2 = face.os2)
    (sameFormat : ¬face.Incomplete → other.formatAndCollection = face.formatAndCollection) :
    other.outcome file = face.outcome file := by
  rcases face.incomplete_or_complete with incomplete | ⟨name, style, complete⟩
  · have otherIncomplete : other.Incomplete := by
      simpa only [Incomplete, sameTable, sameName, sameStyle] using incomplete
    rw [outcome_of_incomplete incomplete, outcome_of_incomplete otherIncomplete]
  · have otherComplete : other.Complete name style :=
      ⟨sameTable.trans complete.hasNamingTable, sameName.trans complete.postscriptName_eq,
        sameStyle.trans complete.macStyle_eq⟩
    have sameRecord (format : FontFormat) (info : Option CidSystemInfo) :
        other.record file name style format info = face.record file name style format info := by
      simp only [record, sameOs2]
    rw [outcome_of_complete complete, outcome_of_complete otherComplete,
      sameFormat complete.not_incomplete]
    simp only [sameRecord]

theorem outcome_eq_error_iff :
    face.outcome file = .error fault ↔ (∃ name style, face.Complete name style) ∧
      face.Fails fault := by
  rcases face.incomplete_or_complete with incomplete | ⟨name, style, complete⟩
  · rw [outcome_of_incomplete incomplete]
    constructor
    · intro impossible
      cases impossible
    · rintro ⟨⟨name, style, complete⟩, -⟩
      exact absurd incomplete complete.not_incomplete
  · rw [outcome_of_complete complete, ← formatAndCollection_eq_error_iff]
    cases face.formatAndCollection with
    | error found => simpa [Except.map] using fun _ => ⟨name, style, complete⟩
    | ok found => simp [Except.map]

theorem outcome_eq_none_iff : face.outcome file = .ok none ↔ face.Incomplete := by
  rcases face.incomplete_or_complete with incomplete | ⟨name, style, complete⟩
  · exact iff_of_true (outcome_of_incomplete incomplete file) incomplete
  · apply iff_of_false
    · rw [outcome_of_complete complete]
      cases face.formatAndCollection <;> simp [Except.map]
    · exact complete.not_incomplete

theorem outcome_eq_some_iff :
    face.outcome file = .ok (some record) ↔ face.IsRecord file record := by
  constructor
  · intro found
    rcases face.incomplete_or_complete with incomplete | ⟨name, style, complete⟩
    · rw [outcome_of_incomplete incomplete] at found
      cases found
    · rw [outcome_of_complete complete] at found
      rcases face.hasFormat_or_fails with ⟨format, info, hasFormat⟩ | ⟨fault, fails⟩
      · rw [hasFormat.formatAndCollection_eq] at found
        cases found
        exact isRecord_record complete hasFormat
      · rw [fails.formatAndCollection_eq] at found
        cases found
  · intro isRecord
    rcases isRecord.complete with ⟨style, complete, -⟩
    rw [outcome_of_complete complete, isRecord.hasFormat.formatAndCollection_eq]
    have isEq := isRecord.eq_record complete
    simp only [Except.map]
    rw [← isEq]

/-- The examination decides as specified, and does not depend on what the specification does not
look at. -/
structure FollowsSpecification (face : Face Fault) (file : Path) : Prop where
  eq_error_iff : ∀ fault, face.outcome file = .error fault ↔
    (∃ name style, face.Complete name style) ∧ face.Fails fault
  eq_none_iff : face.outcome file = .ok none ↔ face.Incomplete
  eq_some_iff : ∀ record, face.outcome file = .ok (some record) ↔ face.IsRecord file record
  openType_iff : ∀ record, face.outcome file = .ok (some record) →
    (record.format = .openType ↔ ∃ outlines, face.HasOutlines outlines)
  ignores_outlines : face.isOpenType = false →
    ∀ outlines, { face with outlines := outlines }.outcome file = face.outcome file
  ignores_gcid : ∀ outlines, face.HasOutlines outlines →
    ∀ gcid, { face with gcid := gcid }.outcome file = face.outcome file
  ignores_both : face.Incomplete →
    ∀ outlines gcid, { face with outlines := outlines, gcid := gcid }.outcome file =
      face.outcome file
  ignores_names : ∀ family subfamily,
    { face with familyName := family, subfamilyName := subfamily }.outcome file =
      face.outcome file

theorem followsSpecification (face : Face Fault) (file : Path) :
    face.FollowsSpecification file where
  eq_error_iff _ := outcome_eq_error_iff
  eq_none_iff := outcome_eq_none_iff
  eq_some_iff _ := outcome_eq_some_iff
  openType_iff := by
    intro record found
    exact (outcome_eq_some_iff.mp found).hasFormat.openType_iff
  ignores_outlines := by
    intro notOpenType outlines
    refine outcome_congr rfl rfl rfl rfl ?_
    intro _
    simp [formatAndCollection, notOpenType]
  ignores_gcid := by
    intro outlines has gcid
    refine outcome_congr rfl rfl rfl rfl ?_
    intro _
    simp [formatAndCollection, has.1, has.2]
  ignores_both := by
    intro incomplete outlines gcid
    refine outcome_congr rfl rfl rfl rfl ?_
    intro complete
    exact absurd incomplete complete
  ignores_names := by
    intro family subfamily
    refine outcome_congr rfl rfl rfl rfl ?_
    intro _
    rfl

end Face

end FontCatalog
