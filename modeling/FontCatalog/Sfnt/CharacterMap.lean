import FontCatalog.Sfnt.Font

/-!
# Character maps

A `cmap` table holds several maps from characters to glyphs. The best one is used: maps of symbol
fonts are better than maps of all characters, and those better than maps of the first plane; among
equally good ones the last one counts. A symbol font keeps its glyphs at U+F000 and above, where
they are also looked for under the codes up to U+00FF.
-/

namespace FontCatalog.Sfnt

/-- The number of a glyph inside its font. -/
abbrev GlyphId := Nat

/-- What a map covers, from the least to the most preferred. -/
inductive MapCoverage where
  | firstPlane
  | full
  | symbol
deriving DecidableEq

namespace MapCoverage

/-- How good a map is. -/
def rank : MapCoverage → Nat
  | firstPlane => 1
  | full => 2
  | symbol => 3

/-- The coverage of a map by its platform and encoding; maps of other kinds are not used. -/
def of? (platform encoding : Nat) : Option MapCoverage :=
  if platform = 3 ∧ encoding = 0 then some symbol
  else if (platform = 3 ∧ encoding = 10) ∨ (platform = 0 ∧ encoding = 4) then some full
  else if platform = 2 ∨ (platform = 0 ∧ encoding ≠ 5) ∨ (platform = 3 ∧ encoding = 1) then
    some firstPlane
  else none

end MapCoverage

/-- The arrays of a map in segments: for each segment its last and first code, what is added to
its codes, and where its glyphs are listed. -/
structure SegmentArrays where
  endCodes : List Nat
  startCodes : List Nat
  deltas : List Nat
  rangeOffsets : List Nat
  glyphIds : List Nat
  count : Nat

/-- A group of consecutive characters with consecutive glyphs. -/
structure MapGroup where
  first : Nat
  last : Nat
  firstGlyph : Nat

/-- A map from characters to glyphs. -/
inductive GlyphMap where
  /-- Segments of the first plane (format 4). -/
  | segments (arrays : SegmentArrays)
  /-- Groups of any characters (format 12). -/
  | groups (groups : List MapGroup)

/-- On which side of a range of characters a code lies. -/
def sideOfRange (code first last : Nat) : Ordering :=
  if code < first then .lt else if last < code then .gt else .eq

namespace SegmentArrays

/-- The 16-bit numbers of an array, or none when they do not all fit. -/
def numbers (bytes : Bytes) (offset count : Nat) : List Nat :=
  (bytes.table offset 2 count).map Bytes.bigEndian

/-- The arrays of a map in segments. -/
def ofBytes (bytes : Bytes) : SegmentArrays :=
  let count := Bytes.bigEndian ((bytes.drop 6).take 2) / 2
  let glyphs := 16 + 8 * count
  { endCodes := numbers bytes 14 count
    startCodes := numbers bytes (16 + 2 * count) count
    deltas := numbers bytes (16 + 4 * count) count
    rangeOffsets := numbers bytes (16 + 6 * count) count
    glyphIds := numbers bytes glyphs ((bytes.length - glyphs) / 2)
    count := count }

/-- The segment that holds a code. -/
def segment? (arrays : SegmentArrays) (code : Nat) : Option Nat :=
  let side (place : Nat) : Option Ordering :=
    match arrays.startCodes[place]? with
    | none => none
    | some first =>
        if code < first then some .lt
        else (arrays.endCodes[place]?).map fun last => sideOfRange code first last
  bisect side 0 arrays.count

/-- The glyph of a code in a segment. A segment without a range offset moves all its codes by the
same distance; any other one refers to the list of glyphs. -/
def glyphIn? (arrays : SegmentArrays) (code place : Nat) : Option GlyphId := do
  let first ← arrays.startCodes[place]?
  let delta ← arrays.deltas[place]?
  let rangeOffset ← arrays.rangeOffsets[place]?
  if rangeOffset = 0 then pure ((code + delta) % 0x10000)
  else
    let index := rangeOffset / 2 + (code - first) - (arrays.rangeOffsets.length - place)
    let glyph ← arrays.glyphIds[index]?
    if glyph = 0 then none else pure ((glyph + delta) % 0x10000)

/-- The glyph of a code. -/
def glyph? (arrays : SegmentArrays) (code : Nat) : Option GlyphId := do
  if 0xFFFF < code then none
  else
    let place ← arrays.segment? code
    arrays.glyphIn? code place

end SegmentArrays

namespace MapGroup

/-- The group that twelve bytes spell. -/
def ofBytes (bytes : Bytes) : MapGroup where
  first := Bytes.bigEndian (bytes.take 4)
  last := Bytes.bigEndian ((bytes.drop 4).take 4)
  firstGlyph := Bytes.bigEndian ((bytes.drop 8).take 4)

/-- The glyph of a code in a list of groups. -/
def glyph? (groups : List MapGroup) (code : Nat) : Option GlyphId := do
  let side (place : Nat) : Option Ordering :=
    (groups[place]?).map fun group => sideOfRange code group.first group.last
  let place ← bisect side 0 groups.length
  let group ← groups[place]?
  pure ((group.firstGlyph + (code - group.first)) % 0x100000000)

end MapGroup

namespace GlyphMap

/-- The map that the bytes spell, if it is of a known format. -/
def ofBytes? (bytes : Bytes) : Option GlyphMap := do
  let header ← bytes.slice? 0 16
  let format := Bytes.bigEndian (header.take 2)
  if format = 4 then pure (.segments (SegmentArrays.ofBytes bytes))
  else if format = 12 then
    let count := Bytes.bigEndian (header.drop 12)
    pure (.groups ((bytes.table 16 12 count).map MapGroup.ofBytes))
  else none

/-- The glyph of a code; glyph 0 stands for none. -/
def glyph? (map : GlyphMap) (code : Nat) : Option GlyphId :=
  let found :=
    match map with
    | segments arrays => arrays.glyph? code
    | groups list => MapGroup.glyph? list code
  found.filter (· ≠ 0)

end GlyphMap

/-- The map that is used of a font. -/
structure CharacterMap where
  coverage : MapCoverage
  map : GlyphMap

namespace CharacterMap

/-- The map of an entry of a `cmap` table, if it can be used. -/
def ofMapRecord? (table entry : Bytes) : Option CharacterMap := do
  let platform := Bytes.bigEndian (entry.take 2)
  let encoding := Bytes.bigEndian ((entry.drop 2).take 2)
  let offset := Bytes.bigEndian (entry.drop 4)
  let coverage ← MapCoverage.of? platform encoding
  if offset = 0 then none
  else
    let map ← GlyphMap.ofBytes? (table.drop offset)
    pure ⟨coverage, map⟩

/-- The better of two maps, the first one if they are equally good. -/
def better (held : Option CharacterMap) (next : CharacterMap) : Option CharacterMap :=
  match held with
  | none => some next
  | some current => if current.coverage.rank < next.coverage.rank then some next else held

/-- The best map of a `cmap` table. -/
def ofBytes? (table : Bytes) : Option CharacterMap := do
  let header ← table.slice? 0 4
  let count := Bytes.bigEndian (header.drop 2)
  ((table.table 4 8 count).reverse.filterMap (ofMapRecord? table)).foldl better none

/-- The glyph of a character. -/
def glyph? (characterMap : CharacterMap) (code : Nat) : Option GlyphId :=
  match characterMap.map.glyph? code with
  | some glyph => some glyph
  | none =>
      if characterMap.coverage = .symbol ∧ code ≤ 0xFF then
        characterMap.map.glyph? (code + 0xF000)
      else none

end CharacterMap

/-- The glyph of a character in a font, if the font maps it. -/
def Font.glyph? (font : Font) (char : Char) : Option GlyphId := do
  let table ← font.table? .characterMap
  let characterMap ← CharacterMap.ofBytes? table
  characterMap.glyph? char.toNat

end FontCatalog.Sfnt
