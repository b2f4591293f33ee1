import FontCatalog.Face
import FontCatalog.Proofs.DictReading

/-!
# Character collections of fonts

What a font tells of its outlines is settled by the first top DICT of its `CFF ` table, read up to
the first character collection. There are four outcomes: the font has no such table, its character
collection is found, there is none, or something cannot be read.

A character collection whose string numbers are no integers is a token that is rejected, like one
that has too many operands before it. What comes after the first character collection may be
anything, even bytes that could not be read.
-/

namespace FontCatalog

namespace Cff

/-! ## Entries of a top DICT -/

theorem stringNumber_ofInt (value : Int) :
    stringNumber (Int32.ofInt value) = (value % 0x10000).toNat := by
  simp only [stringNumber, UInt32.toNat_toUInt16]
  rw [← UInt32.toNat_toBitVec, Int32.toBitVec_toUInt32, Int32.toBitVec_ofInt, BitVec.toNat_ofInt]
  omega

theorem toInt_shiftLeft {value : Int} (least : -0x8000 ≤ value) (most : value ≤ 0x7FFF) :
    (Int32.ofInt value <<< 16).toInt = value * 0x10000 := by
  have isShift : ((16 : Int32).toBitVec.smod 32).toNat = 16 := by decide
  rw [← Int32.toInt_toBitVec, Int32.toBitVec_shiftLeft, BitVec.shiftLeft_eq', isShift,
    BitVec.toInt_shiftLeft, Int32.toBitVec_ofInt, BitVec.toNat_ofInt, Nat.shiftLeft_eq,
    Int.bmod_def]
  omega

/-- The bits after the point are dropped again. -/
theorem tdiv_shiftLeft {value : Int} (least : -0x8000 ≤ value) (most : value ≤ 0x7FFF) :
    (Int32.ofInt value <<< 16).toInt.tdiv 0x10000 = value := by
  rw [toInt_shiftLeft least most, Int.mul_tdiv_cancel value (by decide)]

/-- The spellings of an entry that names a character collection: three integers, and an operator of
two bytes. -/
inductive SpellsCollection (registry ordering supplement : Int) : Bytes → Prop
  | entry {registryBytes orderingBytes supplementBytes : Bytes}
      (isRegistry : SpellsInteger registry registryBytes)
      (isOrdering : SpellsInteger ordering orderingBytes)
      (isSupplement : SpellsInteger supplement supplementBytes) :
      SpellsCollection registry ordering supplement
        (registryBytes ++ orderingBytes ++ supplementBytes ++ [12, 30])

theorem Token.list_collection {registry ordering supplement : Int} {entry : Bytes}
    (spells : SpellsCollection registry ordering supplement entry) (after : Bytes) :
    list (entry ++ after) =
      integer (Int32.ofInt registry) :: integer (Int32.ofInt ordering) ::
        integer (Int32.ofInt supplement) :: operator .collection :: list after := by
  cases spells with
  | entry isRegistry isOrdering isSupplement =>
      have isOperator : list (12 :: 30 :: after) = operator .collection :: list after := by
        rw [list_cons]
        rfl
      simp only [List.append_assoc, List.cons_append, List.nil_append]
      rw [list_integer isRegistry, list_integer isOrdering, list_integer isSupplement, isOperator]

/-- Whole entries of a DICT that are accepted, none of which names a character collection. -/
structure AcceptedEntries (bytes : Bytes) : Prop where
  passes : ∃ last, DictState.start.Passes (Token.list bytes) last
  whole : ∀ token ∈ (Token.list bytes).getLast?, ∃ operator, token = .operator operator

theorem AcceptedEntries.stopsAt {registry ordering supplement : Int} {before entry : Bytes}
    (accepted : AcceptedEntries before)
    (spells : SpellsCollection registry ordering supplement entry) (after : Bytes) :
    DictState.start.StopsAt (Token.list (before ++ entry ++ after))
      (.ok ⟨(registry % 0x10000).toNat, (ordering % 0x10000).toNat,
        Int32.ofInt supplement <<< 16⟩) := by
  rcases accepted.passes with ⟨last, passes⟩
  have isEmpty : last.stack.height = 0 := by
    cases isLast : (Token.list before).getLast? with
    | none =>
        rw [List.getLast?_eq_none_iff.mp isLast] at passes
        cases passes
        rfl
    | some token =>
        rcases accepted.whole token isLast with ⟨operator, rfl⟩
        exact passes.height_of_getLast? isLast
  rw [List.append_assoc, Token.list_append passes.truncated_not_mem, Token.list_collection spells,
    ← stringNumber_ofInt, ← stringNumber_ofInt]
  exact passes.stopsAt_append (DictState.stopsAt_collection isEmpty _ _ _ _)

/-! ## Strings -/

theorem length_standardStrings : standardStrings.length = standardStringCount := by
  decide +kernel

namespace Table

variable {table : Table} {number : Nat} {text : String} {reference : CollectionReference}

/-- The texts that numbers stand for: the standard strings, and after them the strings of the
table's own, with U+FFFD for what is no UTF-8. -/
inductive Resolves (table : Table) : Nat → String → Prop
  | standard {number : Nat} {text : String} (isStandard : standardStrings[number]? = some text) :
      Resolves table number text
  | own {place : Nat} {bytes : Bytes} (isStored : table.strings.object place = .ok bytes) :
      Resolves table (standardStringCount + place) (String.ofList (Text.Utf8.decodeLossy bytes))

theorem string?_eq_some_iff : table.string? number = some text ↔ table.Resolves number text := by
  constructor
  · intro isText
    rw [string?] at isText
    split at isText
    · exact .standard isText
    · rename_i notStandard
      split at isText
      · rename_i bytes isStored
        cases isText
        have isNumber : standardStringCount + (number - standardStringCount) = number := by omega
        exact isNumber ▸ Resolves.own isStored
      · cases isText
  · intro resolves
    cases resolves with
    | standard isStandard =>
        have isBelow : number < standardStringCount := by
          rw [← length_standardStrings]
          exact (List.getElem?_eq_some_iff.mp isStandard).1
        rw [string?, if_pos isBelow, isStandard]
    | own isStored =>
        rw [string?, if_neg (by omega), Nat.add_sub_cancel_left, isStored]

theorem string?_eq_none_iff :
    table.string? number = none ↔ ∀ text, ¬ table.Resolves number text := by
  simp only [Option.eq_none_iff_forall_ne_some, ne_eq, string?_eq_some_iff]

/-- The information that a character collection stands for: the texts of its two string numbers, and
the whole part of its supplement. -/
structure Describes (table : Table) (reference : CollectionReference) (info : CidSystemInfo) :
    Prop where
  registry : table.Resolves reference.registry info.registry
  ordering : table.Resolves reference.ordering info.ordering
  supplement : info.supplement = Int32.ofInt (reference.supplement.toInt.tdiv 0x10000)

theorem resolve_of_describes {info : CidSystemInfo} (describes : table.Describes reference info) :
    table.resolve reference = .ok ⟨some info⟩ := by
  rw [resolve, string?_eq_some_iff.mpr describes.registry,
    string?_eq_some_iff.mpr describes.ordering, ← describes.supplement]

theorem describes_or_missing (table : Table) (reference : CollectionReference) :
    (∃ info, table.Describes reference info) ∨
    (∀ text, ¬ table.Resolves reference.registry text) ∨
    ∃ registry, table.Resolves reference.registry registry ∧
      ∀ text, ¬ table.Resolves reference.ordering text := by
  cases isRegistry : table.string? reference.registry with
  | none => exact Or.inr (Or.inl (string?_eq_none_iff.mp isRegistry))
  | some registry =>
      have resolves := string?_eq_some_iff.mp isRegistry
      cases isOrdering : table.string? reference.ordering with
      | none => exact Or.inr (Or.inr ⟨registry, resolves, string?_eq_none_iff.mp isOrdering⟩)
      | some ordering =>
          exact Or.inl ⟨⟨registry, ordering, _⟩, resolves, string?_eq_some_iff.mp isOrdering, rfl⟩

end Table

end Cff

namespace Sfnt.Font

open Cff

variable {font : Font} {table : Table} {topDict : Bytes} {reference : CollectionReference}
  {info : CidSystemInfo} {fault : Fault}

/-! ## Outcomes -/

/-- The font has a `CFF ` table that can be read, with the given first top DICT. -/
def HasTopDict (font : Font) (table : Table) (topDict : Bytes) : Prop :=
  ∃ bytes, font.table? .cff = some bytes ∧ Table.read? bytes = some table ∧
    table.topDicts.object 0 = .ok topDict

/-- Why the outlines of a font cannot be told: the table or its first top DICT cannot be read, a
token before the first character collection is rejected, or a string of it does not resolve. -/
inductive Fails (font : Font) : Fault → Prop
  | table {bytes : Bytes} (isTable : font.table? .cff = some bytes)
      (notRead : Table.read? bytes = none) : Fails font (.table .outOfBounds)
  | topDict {bytes : Bytes} {table : Table} {fault : IndexFault}
      (isTable : font.table? .cff = some bytes) (isRead : Table.read? bytes = some table)
      (isFault : table.topDicts.object 0 = .error fault) : Fails font (.topDictUnreadable fault)
  | token {table : Table} {topDict : Bytes} {fault : DictFault}
      (has : font.HasTopDict table topDict)
      (rejects : DictState.start.StopsAt (Token.list topDict) (.error fault)) :
      Fails font (.topDictMalformed fault)
  | registry {table : Table} {topDict : Bytes} {reference : CollectionReference}
      (has : font.HasTopDict table topDict)
      (names : DictState.start.StopsAt (Token.list topDict) (.ok reference))
      (missing : ∀ text, ¬ table.Resolves reference.registry text) : Fails font .registryMissing
  | ordering {table : Table} {topDict : Bytes} {reference : CollectionReference} {text : String}
      (has : font.HasTopDict table topDict)
      (names : DictState.start.StopsAt (Token.list topDict) (.ok reference))
      (isRegistry : table.Resolves reference.registry text)
      (missing : ∀ text, ¬ table.Resolves reference.ordering text) : Fails font .orderingMissing

theorem HasTopDict.outlines_eq (has : font.HasTopDict table topDict) :
    font.outlines = table.outlines.map some := by
  rcases has with ⟨bytes, isTable, isRead, -⟩
  simp only [outlines, isTable, outlinesOfBytes, isRead]

theorem HasTopDict.outlines_of_passes {last : DictState} (has : font.HasTopDict table topDict)
    (passes : DictState.start.Passes (Token.list topDict) last) :
    font.outlines = .ok (some ⟨none⟩) := by
  rw [has.outlines_eq]
  rcases has with ⟨-, -, -, isTopDict⟩
  simp only [Table.outlines, isTopDict, topDictCollection?, passes.collection?_eq, Except.map]

theorem HasTopDict.outlines_of_rejects {fault : DictFault} (has : font.HasTopDict table topDict)
    (rejects : DictState.start.StopsAt (Token.list topDict) (.error fault)) :
    font.outlines = .error (.topDictMalformed fault) := by
  rw [has.outlines_eq]
  rcases has with ⟨-, -, -, isTopDict⟩
  simp only [Table.outlines, isTopDict, topDictCollection?, rejects.collection?_eq, Except.map]

theorem HasTopDict.outlines_of_names (has : font.HasTopDict table topDict)
    (names : DictState.start.StopsAt (Token.list topDict) (.ok reference)) :
    font.outlines = (table.resolve reference).map some := by
  rw [has.outlines_eq]
  rcases has with ⟨-, -, -, isTopDict⟩
  simp only [Table.outlines, isTopDict, topDictCollection?, names.collection?_eq, Except.map]

theorem HasTopDict.outlines_of_describes (has : font.HasTopDict table topDict)
    (names : DictState.start.StopsAt (Token.list topDict) (.ok reference))
    (describes : table.Describes reference info) :
    font.outlines = .ok (some ⟨some info⟩) := by
  rw [has.outlines_of_names names, Table.resolve_of_describes describes]
  rfl

theorem Fails.outlines_eq (fails : font.Fails fault) : font.outlines = .error fault := by
  cases fails with
  | table isTable notRead => simp only [outlines, isTable, outlinesOfBytes, notRead, Except.map]
  | topDict isTable isRead isFault =>
      simp only [outlines, isTable, outlinesOfBytes, isRead, Table.outlines, isFault, Except.map]
  | token has rejects => exact has.outlines_of_rejects rejects
  | registry has names missing =>
      rw [has.outlines_of_names names, Table.resolve, Table.string?_eq_none_iff.mpr missing]
      rfl
  | ordering has names isRegistry missing =>
      rw [has.outlines_of_names names, Table.resolve, Table.string?_eq_some_iff.mpr isRegistry,
        Table.string?_eq_none_iff.mpr missing]
      rfl

/-- What a font tells of its outlines, by the four ways of reading them. -/
inductive Tells (font : Font) : Except Fault (Option Outlines) → Prop
  | absent (noTable : font.table? .cff = none) : Tells font (.ok none)
  | unnamed {table : Table} {topDict : Bytes} {last : DictState}
      (has : font.HasTopDict table topDict)
      (passes : DictState.start.Passes (Token.list topDict) last) :
      Tells font (.ok (some ⟨none⟩))
  | named {table : Table} {topDict : Bytes} {reference : CollectionReference}
      {info : CidSystemInfo} (has : font.HasTopDict table topDict)
      (names : DictState.start.StopsAt (Token.list topDict) (.ok reference))
      (describes : table.Describes reference info) : Tells font (.ok (some ⟨some info⟩))
  | failing {fault : Fault} (fails : font.Fails fault) : Tells font (.error fault)

theorem Tells.outlines_eq {outcome : Except Fault (Option Outlines)}
    (tells : font.Tells outcome) : font.outlines = outcome := by
  cases tells with
  | absent noTable => rw [outlines, noTable]
  | unnamed has passes => exact has.outlines_of_passes passes
  | named has names describes => exact has.outlines_of_describes names describes
  | failing fails => exact fails.outlines_eq

theorem exists_tells (font : Font) : ∃ outcome, font.Tells outcome := by
  cases isTable : font.table? .cff with
  | none => exact ⟨_, .absent isTable⟩
  | some bytes =>
      cases isRead : Table.read? bytes with
      | none => exact ⟨_, .failing (.table isTable isRead)⟩
      | some table =>
          cases isTopDict : table.topDicts.object 0 with
          | error fault => exact ⟨_, .failing (.topDict isTable isRead isTopDict)⟩
          | ok topDict =>
              have has : font.HasTopDict table topDict := ⟨bytes, isTable, isRead, isTopDict⟩
              rcases DictState.start.passes_or_stopsAt (Token.list topDict) with
                ⟨last, passes⟩ | ⟨fault | reference, stops⟩
              · exact ⟨_, .unnamed has passes⟩
              · exact ⟨_, .failing (.token has stops)⟩
              · rcases table.describes_or_missing reference with
                  ⟨info, describes⟩ | missing | ⟨registry, isRegistry, missing⟩
                · exact ⟨_, .named has stops describes⟩
                · exact ⟨_, .failing (.registry has stops missing)⟩
                · exact ⟨_, .failing (.ordering has stops isRegistry missing)⟩

theorem outlines_eq_iff {outcome : Except Fault (Option Outlines)} :
    font.outlines = outcome ↔ font.Tells outcome := by
  constructor
  · rintro rfl
    rcases font.exists_tells with ⟨outcome, tells⟩
    rw [tells.outlines_eq]
    exact tells
  · exact Tells.outlines_eq

/-! ## Whole fonts -/

/-- What a font tells of its outlines. -/
structure TellsCollection (font : Font) : Prop where
  absent : font.outlines = .ok none ↔ font.table? .cff = none
  /-- A character collection behind whole entries is told, whatever comes after it. -/
  spelled {table : Table} {before entry after : Bytes} {registry ordering supplement : Int}
    {registryText orderingText : String} (has : font.HasTopDict table (before ++ entry ++ after))
    (accepted : AcceptedEntries before)
    (spells : SpellsCollection registry ordering supplement entry)
    (least : -0x8000 ≤ supplement) (most : supplement ≤ 0x7FFF)
    (isRegistry : table.Resolves (registry % 0x10000).toNat registryText)
    (isOrdering : table.Resolves (ordering % 0x10000).toNat orderingText) :
    font.outlines = .ok (some ⟨some ⟨registryText, orderingText, Int32.ofInt supplement⟩⟩)
  named (info : CidSystemInfo) : font.outlines = .ok (some ⟨some info⟩) ↔
    ∃ table topDict reference, font.HasTopDict table topDict ∧
      DictState.start.StopsAt (Token.list topDict) (.ok reference) ∧
      table.Describes reference info
  unnamed : font.outlines = .ok (some ⟨none⟩) ↔
    ∃ table topDict last, font.HasTopDict table topDict ∧
      DictState.start.Passes (Token.list topDict) last ∧
      .operator .collection ∉ Token.list topDict
  fails (fault : Fault) : font.outlines = .error fault ↔ font.Fails fault

theorem tellsCollection (font : Font) : font.TellsCollection where
  absent := by
    rw [outlines_eq_iff]
    constructor
    · intro tells
      cases tells with
      | absent noTable => exact noTable
    · exact .absent
  spelled has accepted spells least most isRegistry isOrdering := by
    refine has.outlines_of_describes (accepted.stopsAt spells _) ⟨isRegistry, isOrdering, ?_⟩
    rw [tdiv_shiftLeft least most]
  named info := by
    rw [outlines_eq_iff]
    constructor
    · intro tells
      cases tells with
      | named has names describes => exact ⟨_, _, _, has, names, describes⟩
    · rintro ⟨table, topDict, reference, has, names, describes⟩
      exact .named has names describes
  unnamed := by
    rw [outlines_eq_iff]
    constructor
    · intro tells
      cases tells with
      | unnamed has passes => exact ⟨_, _, _, has, passes, passes.collection_not_mem⟩
    · rintro ⟨table, topDict, last, has, passes, -⟩
      exact .unnamed has passes
  fails fault := by
    rw [outlines_eq_iff]
    constructor
    · intro tells
      cases tells with
      | failing fails => exact fails
    · exact .failing

/-- A CID-keyed font. The second of its two strings is no UTF-8, and half a number comes after its
character collection. -/
def specimen : Font where
  file :=
    [0] ++ [1, 0, 4, 1] ++ [0, 1, 1, 1, 2, 65] ++
      ([0, 1, 1, 1, 11] ++ ([139, 0] ++ [248, 27, 248, 28, 145, 12, 30] ++ [30])) ++
      ([0, 2, 1, 1, 6, 8] ++ [65, 100, 111, 98, 101] ++ [74, 255]) ++ [0, 0, 0]
  version := openTypeVersion
  directory := [⟨.cff, 1, 41⟩]

/-- The table of the specimen. -/
def specimenTable : Table where
  topDicts := ⟨1, 1, [1, 11], specimen.file.drop 16⟩
  strings := ⟨2, 1, [1, 6, 8], specimen.file.drop 32⟩

theorem hasTopDict_specimen :
    specimen.HasTopDict specimenTable ([139, 0] ++ [248, 27, 248, 28, 145, 12, 30] ++ [30]) :=
  ⟨specimen.file.drop 1, by decide +kernel, by decide, by decide⟩

theorem acceptedEntries_specimen : AcceptedEntries [139, 0] := by
  have isList : Token.list [139, 0] = [.integer 0, .operator (.plain 0)] := by
    simp [Token.list, Token.read]
  constructor
  · rw [isList]
    exact ⟨_, .cons rfl (.cons rfl .nil)⟩
  · rw [isList]
    intro token isLast
    cases isLast
    exact ⟨_, rfl⟩

theorem tellsCollection_specimen :
    specimen.outlines = .ok (some ⟨some ⟨"Adobe", "J\uFFFD", 6⟩⟩) := by
  have isRegistry : specimenTable.strings.object 0 = .ok [65, 100, 111, 98, 101] := by decide
  have isOrdering : specimenTable.strings.object 1 = .ok [74, 255] := by decide
  have spells : SpellsCollection 391 392 6 [248, 27, 248, 28, 145, 12, 30] :=
    .entry (.positive (by decide) (by decide)) (.positive (by decide) (by decide))
      (.oneByte (by decide) (by decide))
  exact (tellsCollection specimen).spelled hasTopDict_specimen acceptedEntries_specimen spells
    (by decide) (by decide) (.own isRegistry) (.own isOrdering)

end Sfnt.Font

end FontCatalog
