import FontCatalog.CidSystemInfo
import FontCatalog.Cff.Index
import FontCatalog.Cff.StandardStrings
import FontCatalog.Cff.TopDict
import FontCatalog.Sfnt.ReadFault
import FontCatalog.Text.Utf8

/-!
# Compact font format tables

A table in the compact font format starts with a header and four INDEX structures: names, top
DICTs, strings and global subroutines. The first top DICT tells whether the font is CID-keyed, and
of which character collection.
-/

namespace FontCatalog.Cff

/-- Why the outlines of a font cannot be used. -/
inductive Fault where
  | table (fault : Sfnt.ReadFault)
  | topDictUnreadable (fault : IndexFault)
  | topDictMalformed (fault : DictFault)
  | registryMissing
  | orderingMissing
deriving DecidableEq

/-- The wording of a fault. -/
def Fault.message : Fault → String
  | table fault => fault.message
  | topDictUnreadable fault => "reading CFF top DICT: " ++ fault.message
  | topDictMalformed fault => "parsing CFF top DICT: " ++ fault.message
  | registryMissing => "CFF ROS registry string missing"
  | orderingMissing => "CFF ROS ordering string missing"

/-- What matters of the outlines of a font: its character collection, if it is CID-keyed. -/
structure Outlines where
  cid : Option CidSystemInfo
deriving DecidableEq

/-- The font is CID-keyed. -/
def Outlines.isCidKeyed (outlines : Outlines) : Bool :=
  outlines.cid.isSome

/-- A table in the compact font format. -/
structure Table where
  topDicts : Index
  strings : Index
deriving DecidableEq

namespace Table

/-- The least size of a header. -/
def headerSize : Nat := 4

/-- Reads a table. The first INDEX starts where the header says it ends. -/
def read? (bytes : Bytes) : Option Table := do
  let header ← bytes.slice? 0 headerSize
  let size ← header.u8At? 2
  let (_, afterNames) ← Index.readPast? (bytes.drop (max headerSize size.toNat))
  let (topDicts, afterTopDicts) ← Index.readPast? afterNames
  let (strings, afterStrings) ← Index.readPast? afterTopDicts
  let _ ← Index.read? afterStrings
  pure ⟨topDicts, strings⟩

/-- The string with the given number: a standard string, or one of the table's own. -/
def string? (table : Table) (number : Nat) : Option String :=
  if number < standardStringCount then standardStrings[number]?
  else
    match table.strings.object (number - standardStringCount) with
    | .ok bytes => some (String.ofList (Text.Utf8.decodeLossy bytes))
    | .error _ => none

/-- The outlines of a CID-keyed font with the given character collection. The supplement is
truncated toward zero. -/
def resolve (table : Table) (collection : CollectionReference) : Except Fault Outlines :=
  match table.string? collection.registry, table.string? collection.ordering with
  | none, _ => .error .registryMissing
  | some _, none => .error .orderingMissing
  | some registry, some ordering =>
      .ok
        { cid := some
            { registry := registry
              ordering := ordering
              supplement := Int32.ofInt (collection.supplement.toInt.tdiv 0x10000) } }

/-- The outlines that the first top DICT describes. -/
def outlines (table : Table) : Except Fault Outlines :=
  match table.topDicts.object 0 with
  | .error fault => .error (.topDictUnreadable fault)
  | .ok topDict =>
      match topDictCollection? topDict with
      | .error fault => .error (.topDictMalformed fault)
      | .ok none => .ok ⟨none⟩
      | .ok (some collection) => table.resolve collection

end Table

/-- The outlines of the table that the bytes spell. -/
def outlinesOfBytes (bytes : Bytes) : Except Fault Outlines :=
  match Table.read? bytes with
  | none => .error (.table .outOfBounds)
  | some table => table.outlines

end FontCatalog.Cff
