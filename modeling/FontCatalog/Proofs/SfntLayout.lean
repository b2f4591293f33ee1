import FontCatalog.Proofs.ByteStrings
import FontCatalog.Proofs.DirectorySearch
import Mathlib.Algebra.GroupWithZero.Nat

/-!
# Laying out sfnt files

A font is laid out as its header, its directory and its tables in the order of their tags, each
filled up to a multiple of four bytes. The places in the directory count from the start of the file,
so that the font can stand anywhere in it; a collection is a header with the places of its fonts and
then the fonts one after another. Reading finds the directories that were written, and under each
tag the table that was laid out.
-/

namespace FontCatalog.Sfnt

open Bytes

/-- A table and the tag under which it is to be found. -/
structure TaggedTable where
  tag : Tag
  data : Bytes

/-- The bytes of a table with zeros up to a multiple of four. -/
def TaggedTable.padded (table : TaggedTable) : Bytes :=
  table.data ++ List.replicate ((4 - table.data.length % 4) % 4) 0

/-- The sixteen bytes of an entry; the checksum is left out. -/
def TableEntry.toBytes (entry : TableEntry) : Bytes :=
  bigEndianOf 4 entry.tag.code.toNat ++ bigEndianOf 4 0 ++ bigEndianOf 4 entry.offset ++
    bigEndianOf 4 entry.length

/-- The directory of tables that follow each other from a place on. -/
def entriesFrom (start : Nat) : List TaggedTable → Directory
  | [] => []
  | table :: rest =>
      ⟨table.tag, start, table.data.length⟩ :: entriesFrom (start + table.padded.length) rest

/-- A font that is to be laid out. -/
structure FontPlan where
  version : UInt32
  tables : List TaggedTable

namespace FontPlan

/-- The tables in the order of their tags. -/
def inOrder (plan : FontPlan) : List TaggedTable :=
  plan.tables.mergeSort fun left right => left.tag.code ≤ right.tag.code

/-- The version, the number of tables, and three numbers for searching that are left out. -/
def header (plan : FontPlan) : Bytes :=
  bigEndianOf 4 plan.version.toNat ++ bigEndianOf 2 plan.tables.length ++ List.replicate 6 0

/-- The directory of a font that starts at a place of a file. -/
def directory (plan : FontPlan) (base : Nat) : Directory :=
  entriesFrom (base + 12 + 16 * plan.tables.length) plan.inOrder

/-- The bytes of a font that starts at a place of a file. -/
def bytesAt (plan : FontPlan) (base : Nat) : Bytes :=
  plan.header ++ (plan.directory base).flatMap TableEntry.toBytes ++
    plan.inOrder.flatMap TaggedTable.padded

/-- The number of tables fits into 16 bits, and their places and lengths fit into 32 bits. -/
structure Fits (plan : FontPlan) (base : Nat) : Prop where
  tables : plan.tables.length < 256 ^ 2
  entries : ∀ entry ∈ plan.directory base, entry.offset < 256 ^ 4 ∧ entry.length < 256 ^ 4

/-- The font as it is read from a file in which it starts at a place. -/
def fontIn (plan : FontPlan) (file : Bytes) (base : Nat) : Font :=
  ⟨file, plan.version, plan.directory base⟩

end FontPlan

/-! ## Directories -/

@[simp]
theorem TableEntry.length_toBytes (entry : TableEntry) : entry.toBytes.length = 16 := by
  simp [toBytes]

theorem TableEntry.ofBytes_toBytes {entry : TableEntry}
    (fits : entry.offset < 256 ^ 4 ∧ entry.length < 256 ^ 4) :
    TableEntry.ofBytes entry.toBytes = entry := by
  have tagBytes : entry.toBytes.take 4 = bigEndianOf 4 entry.tag.code.toNat := by
    simp [toBytes]
  have offsetBytes : (entry.toBytes.drop 8).take 4 = bigEndianOf 4 entry.offset :=
    take_drop_of_eq (bigEndianOf 4 entry.tag.code.toNat ++ bigEndianOf 4 0)
      (bigEndianOf 4 entry.length) (by simp [toBytes]) (by simp) (by simp)
  have lengthBytes : (entry.toBytes.drop 12).take 4 = bigEndianOf 4 entry.length :=
    take_drop_of_eq (bigEndianOf 4 entry.tag.code.toNat ++ bigEndianOf 4 0 ++
      bigEndianOf 4 entry.offset) [] (by simp [toBytes]) (by simp) (by simp)
  rw [ofBytes, tagBytes, offsetBytes, lengthBytes, bigEndian_u32, bigEndian_bigEndianOf fits.1,
    bigEndian_bigEndianOf fits.2, UInt32.ofNat_toNat]

@[simp]
theorem length_entriesFrom (start : Nat) (tables : List TaggedTable) :
    (entriesFrom start tables).length = tables.length := by
  induction tables generalizing start with
  | nil => rfl
  | cons table rest ih => simp [entriesFrom, ih]

theorem le_offset_of_mem_entriesFrom {start : Nat} {tables : List TaggedTable} {entry : TableEntry}
    (isEntry : entry ∈ entriesFrom start tables) : start ≤ entry.offset := by
  induction tables generalizing start with
  | nil => cases isEntry
  | cons table rest ih =>
      rcases List.mem_cons.mp isEntry with rfl | later
      · exact Nat.le_refl _
      · exact Nat.le_trans (Nat.le_add_right _ _) (ih later)

/-- The first entry with a tag leads to the first table with it. -/
theorem slice?_find?_entriesFrom {file before after : Bytes} {tables : List TaggedTable} (tag : Tag)
    (isFile : file = before ++ (tables.flatMap TaggedTable.padded ++ after)) :
    ((entriesFrom before.length tables).find? fun entry => entry.tag == tag).bind
        (fun entry => file.slice? entry.offset entry.length) =
      (tables.find? fun table => table.tag == tag).map TaggedTable.data := by
  -- The tables that were passed are counted to what stands in front.
  induction tables generalizing before with
  | nil => rfl
  | cons table rest ih =>
      rw [entriesFrom, List.find?_cons, List.find?_cons]
      dsimp only
      split
      · rw [Option.bind_some, Option.map_some]
        refine slice?_of_eq before (List.replicate ((4 - table.data.length % 4) % 4) 0 ++
          (rest.flatMap TaggedTable.padded ++ after)) ?_ rfl rfl
        rw [isFile, List.flatMap_cons, TaggedTable.padded]
        simp only [List.append_assoc]
      · rw [← List.length_append]
        apply ih
        rw [isFile, List.flatMap_cons]
        simp only [List.append_assoc]

namespace FontPlan

variable {plan : FontPlan} {file before after : Bytes} {base : Nat} {tag : Tag}

/-! ## A font -/

@[simp]
theorem length_header (plan : FontPlan) : plan.header.length = 12 := by
  simp [header]

@[simp]
theorem length_inOrder (plan : FontPlan) : plan.inOrder.length = plan.tables.length :=
  List.length_mergeSort _

theorem length_directory (plan : FontPlan) (base : Nat) :
    (plan.directory base).length = plan.tables.length := by
  simp [directory]

theorem table_directory (plan : FontPlan) (base : Nat) (after : Bytes) :
    Bytes.table (plan.bytesAt base ++ after) 12 16 plan.tables.length =
      (plan.directory base).map TableEntry.toBytes := by
  rw [← plan.length_directory base]
  refine table_of_eq plan.header (plan.inOrder.flatMap TaggedTable.padded ++ after) ?_
    plan.length_header fun entry _ => entry.length_toBytes
  simp only [bytesAt, List.append_assoc]

/-- A font that was laid out is read from where it stands. -/
theorem readAt_of_eq (isVersion : plan.version = Font.trueTypeVersion ∨
      plan.version = Font.openTypeVersion ∨ plan.version = Font.appleVersion)
    (fits : plan.Fits before.length)
    (isFile : file = before ++ (plan.bytesAt before.length ++ after)) :
    Font.readAt file before.length = .ok (plan.fontIn file before.length) := by
  have atBase : file.drop before.length = plan.bytesAt before.length ++ after := by
    rw [isFile, List.drop_left]
  have isHeader : Bytes.slice? (plan.bytesAt before.length ++ after) 0 12 = some plan.header := by
    rw [bytesAt, List.append_assoc, List.append_assoc, ← plan.length_header]
    exact slice?_zero plan.header _
  have versionBytes : plan.header.take 4 = bigEndianOf 4 plan.version.toNat := by
    simp [header]
  have countBytes : (plan.header.drop 4).take 2 = bigEndianOf 2 plan.tables.length := by
    simp [header]
  have readBack : ((plan.directory before.length).map TableEntry.toBytes).map TableEntry.ofBytes =
      plan.directory before.length := by
    rw [List.map_map]
    refine (List.map_congr_left ?_).trans (List.map_id _)
    intro entry isEntry
    exact TableEntry.ofBytes_toBytes (fits.entries entry isEntry)
  simp only [Font.readAt, atBase, isHeader, versionBytes, countBytes, bigEndian_u32,
    UInt32.ofNat_toNat, if_pos isVersion, bigEndian_bigEndianOf fits.tables, table_directory,
    readBack]
  rfl

/-- Under each tag of a font stands the first of its tables with it. -/
theorem table?_fontIn (isFile : file = before ++ (plan.bytesAt before.length ++ after))
    (tag : Tag) :
    (plan.fontIn file before.length).table? tag =
      (plan.inOrder.find? fun table => table.tag == tag).map TaggedTable.data := by
  have dataStart : (before ++ (plan.header ++
      (plan.directory before.length).flatMap TableEntry.toBytes)).length =
      before.length + 12 + 16 * plan.tables.length := by
    rw [List.length_append, List.length_append, length_header,
      length_flatMap_of_uniform _ fun entry _ => entry.length_toBytes, length_directory]
    omega
  have isData : file = (before ++ (plan.header ++
      (plan.directory before.length).flatMap TableEntry.toBytes)) ++
      (plan.inOrder.flatMap TaggedTable.padded ++ after) := by
    rw [isFile, bytesAt]
    simp only [List.append_assoc]
  have sliced := slice?_find?_entriesFrom tag isData
  rw [dataStart] at sliced
  rw [← sliced]
  simp only [Font.table?, fontIn, Directory.lookup?_eq_find?, directory, Option.bind_eq_bind]
  cases found : (entriesFrom (before.length + 12 + 16 * plan.tables.length) plan.inOrder).find?
      fun entry => entry.tag == tag with
  | none => rfl
  | some entry =>
      -- A table at place 0 would count as missing, but the header stands there.
      have beyond := le_offset_of_mem_entriesFrom (List.mem_of_find?_eq_some found)
      have notFirst : entry.offset ≠ 0 := by omega
      simp only [Option.bind_some, if_neg notFirst]

theorem mem_inOrder {table : TaggedTable} : table ∈ plan.inOrder ↔ table ∈ plan.tables :=
  List.mem_mergeSort

/-! ## Small fonts -/

/-- The number of bytes that a font takes up. -/
def size (plan : FontPlan) : Nat :=
  12 + 16 * plan.tables.length + (plan.tables.flatMap TaggedTable.padded).length

theorem length_flatMap_inOrder (plan : FontPlan) :
    (plan.inOrder.flatMap TaggedTable.padded).length =
      (plan.tables.flatMap TaggedTable.padded).length :=
  ((List.mergeSort_perm plan.tables _).flatMap_right TaggedTable.padded).length_eq

theorem length_bytesAt (plan : FontPlan) (base : Nat) :
    (plan.bytesAt base).length = plan.size := by
  rw [bytesAt, List.length_append, List.length_append, length_header,
    length_flatMap_of_uniform _ fun entry _ => entry.length_toBytes, length_directory,
    length_flatMap_inOrder, size]

theorem offset_add_length_le {start : Nat} {tables : List TaggedTable} {entry : TableEntry}
    (isEntry : entry ∈ entriesFrom start tables) :
    entry.offset + entry.length ≤ start + (tables.flatMap TaggedTable.padded).length := by
  induction tables generalizing start with
  | nil => cases isEntry
  | cons table rest ih =>
      rw [List.flatMap_cons, List.length_append]
      rcases List.mem_cons.mp isEntry with rfl | later
      · have grows : table.data.length ≤ table.padded.length := by
          simp [TaggedTable.padded]
        dsimp only
        omega
      · have inside := ih later
        omega

/-- A font fits if it ends below the place that 32 bits cannot name. -/
theorem fits_of_size (few : plan.tables.length < 256 ^ 2) (small : base + plan.size < 256 ^ 4) :
    plan.Fits base where
  tables := few
  entries := by
    intro entry isEntry
    have inside := offset_add_length_le isEntry
    rw [length_flatMap_inOrder] at inside
    rw [size] at small
    omega

end FontPlan

/-! ## Collections -/

namespace Collection

/-- Fonts with the places from which on they follow each other. -/
def placedFrom (start : Nat) : List FontPlan → List (Nat × FontPlan)
  | [] => []
  | plan :: rest => (start, plan) :: placedFrom (start + (plan.bytesAt start).length) rest

/-- The fonts of a collection with their places behind its header. -/
def placed (plans : List FontPlan) : List (Nat × FontPlan) :=
  placedFrom (12 + 4 * plans.length) plans

/-- The tag, the version and the number of fonts. -/
def header (plans : List FontPlan) : Bytes :=
  bigEndianOf 4 tag.code.toNat ++ bigEndianOf 4 0x00010000 ++ bigEndianOf 4 plans.length

/-- The bytes of a collection: header, places of the fonts, and the fonts. -/
def bytesOf (plans : List FontPlan) : Bytes :=
  header plans ++ (placed plans).flatMap (fun member => bigEndianOf 4 member.1) ++
    (placed plans).flatMap fun member => member.2.bytesAt member.1

/-- The places of all fonts and of their tables fit into 32 bits. -/
def Fits (plans : List FontPlan) : Prop :=
  ∀ member ∈ placed plans, member.1 < 256 ^ 4 ∧ member.2.Fits member.1

variable {plans : List FontPlan} {start : Nat}

@[simp]
theorem length_header (plans : List FontPlan) : (header plans).length = 12 := by
  simp [header]

@[simp]
theorem length_placedFrom (start : Nat) (plans : List FontPlan) :
    (placedFrom start plans).length = plans.length := by
  induction plans generalizing start with
  | nil => rfl
  | cons plan rest ih => simp [placedFrom, ih]

theorem map_snd_placedFrom (start : Nat) (plans : List FontPlan) :
    (placedFrom start plans).map Prod.snd = plans := by
  induction plans generalizing start with
  | nil => rfl
  | cons plan rest ih => simp [placedFrom, ih]

theorem Fits.length_lt (fits : Fits plans) : plans.length < 256 ^ 4 := by
  cases plans with
  | nil => exact Nat.pow_pos (by decide)
  | cons plan rest =>
      have first := (fits (12 + 4 * (plan :: rest).length, plan) List.mem_cons_self).1
      dsimp only at first
      omega

/-- Every font stands at its place. -/
theorem exists_split_of_mem_placedFrom {member : Nat × FontPlan}
    (isMember : member ∈ placedFrom start plans) :
    ∃ left right, (placedFrom start plans).flatMap (fun member => member.2.bytesAt member.1) =
        left ++ (member.2.bytesAt member.1 ++ right) ∧
      start + left.length = member.1 := by
  induction plans generalizing start with
  | nil => cases isMember
  | cons plan rest ih =>
      rw [placedFrom, List.flatMap_cons]
      rcases List.mem_cons.mp isMember with rfl | later
      · exact ⟨[], _, rfl, rfl⟩
      · rcases ih later with ⟨left, right, isRest, isPlace⟩
        refine ⟨plan.bytesAt start ++ left, right, ?_, ?_⟩
        · rw [isRest, List.append_assoc]
        · rw [List.length_append]
          omega

theorem read_bytesOf (fits : Fits plans) :
    Collection.read (bytesOf plans) = .ok ⟨bytesOf plans, (placed plans).map Prod.fst⟩ := by
  have isHeader : Bytes.slice? (bytesOf plans) 0 12 = some (header plans) := by
    rw [bytesOf, List.append_assoc, ← length_header plans]
    exact slice?_zero (header plans) _
  have tagBytes : (header plans).take 4 = bigEndianOf 4 tag.code.toNat := by
    simp [header]
  have countBytes : (header plans).drop 8 = bigEndianOf 4 plans.length :=
    List.drop_left' (by simp)
  have places : Bytes.table (bytesOf plans) 12 4 plans.length =
      (placed plans).map fun member => bigEndianOf 4 member.1 := by
    have count : (placed plans).length = plans.length := length_placedFrom _ plans
    rw [← count]
    refine table_of_eq (header plans) ((placed plans).flatMap fun member =>
      member.2.bytesAt member.1) ?_ (length_header plans) fun member _ => length_bigEndianOf 4 _
    simp only [bytesOf, List.append_assoc]
  have readBack : ((placed plans).map fun member => bigEndianOf 4 member.1).map bigEndian =
      (placed plans).map Prod.fst := by
    rw [List.map_map]
    apply List.map_congr_left
    intro member isMember
    rw [Function.comp_apply, bigEndian_bigEndianOf (fits member isMember).1]
  simp only [Collection.read, isHeader, tagBytes, countBytes, bigEndian_u32, UInt32.ofNat_toNat,
    if_true, bigEndian_bigEndianOf fits.length_lt, places, readBack]

/-- Every font of a collection can be found between other bytes of its file. -/
theorem exists_split_bytesOf {member : Nat × FontPlan} (isMember : member ∈ placed plans) :
    ∃ before after, bytesOf plans = before ++ (member.2.bytesAt member.1 ++ after) ∧
      before.length = member.1 := by
  rcases exists_split_of_mem_placedFrom isMember with ⟨left, right, isBody, isPlace⟩
  refine ⟨header plans ++ (placed plans).flatMap (fun member => bigEndianOf 4 member.1) ++ left,
    right, ?_, ?_⟩
  · rw [bytesOf, placed, isBody]
    simp only [List.append_assoc]
  · have places : ((placed plans).flatMap fun member => bigEndianOf 4 member.1).length =
        4 * plans.length := by
      rw [length_flatMap_of_uniform _ fun member _ => length_bigEndianOf 4 member.1, placed,
        length_placedFrom]
    simp only [List.length_append, length_header, places]
    omega

theorem length_flatMap_placedFrom (start : Nat) (plans : List FontPlan) :
    ((placedFrom start plans).flatMap fun member => member.2.bytesAt member.1).length =
      (plans.map FontPlan.size).sum := by
  induction plans generalizing start with
  | nil => rfl
  | cons plan rest ih =>
      rw [placedFrom, List.flatMap_cons, List.length_append, FontPlan.length_bytesAt, ih,
        List.map_cons, List.sum_cons]

/-- A collection fits if it ends below the place that 32 bits cannot name. -/
theorem fits_of_size (few : ∀ plan ∈ plans, plan.tables.length < 256 ^ 2)
    (small : 12 + 4 * plans.length + (plans.map FontPlan.size).sum < 256 ^ 4) : Fits plans := by
  rintro ⟨place, plan⟩ isMember
  have isPlan : plan ∈ plans := by
    rw [← map_snd_placedFrom (12 + 4 * plans.length) plans]
    exact List.mem_map.mpr ⟨_, isMember, rfl⟩
  rcases exists_split_of_mem_placedFrom isMember with ⟨left, right, isBody, isPlace⟩
  have total := congrArg List.length isBody
  rw [length_flatMap_placedFrom, List.length_append, List.length_append,
    FontPlan.length_bytesAt] at total
  dsimp only at isPlace total
  have fits : plan.Fits place := FontPlan.fits_of_size (few plan isPlan) (by omega)
  exact ⟨by omega, fits⟩

end Collection

end FontCatalog.Sfnt
