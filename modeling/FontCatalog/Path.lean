import FontCatalog.Bytes
import FontCatalog.Text.Utf8

/-!
# Paths

A path is kept exactly as it was spelled, as a string of bytes. Two spellings name the same
place when they have the same components: repeated slashes, a slash at the end, and `.` after the
first component do not count. Paths are ordered by their components.
-/

namespace FontCatalog

/-- A path, spelled in bytes that need not be UTF-8. -/
structure Path where
  spelling : Bytes
deriving DecidableEq

namespace Path

/-- The byte `/`. -/
def slash : UInt8 := 0x2F

/-- The byte `.`. -/
def dot : UInt8 := 0x2E

/-- One part of a path. -/
inductive Component where
  | root
  | current
  | parent
  | normal (name : Bytes)
deriving DecidableEq

namespace Component

/-- The kinds of components in their order. -/
def rank : Component → Nat
  | root => 0
  | current => 1
  | parent => 2
  | normal _ => 3

/-- The name of a normal component; the others have none. -/
def name : Component → Bytes
  | normal name => name
  | _ => []

/-- Components are ordered by their kinds, and normal ones by the bytes of their names. -/
def compare (left right : Component) : Ordering :=
  (Ord.compare left.rank right.rank).then
    (List.compareLex Ord.compare left.name right.name)

end Component

/-- The path spelled by a text. -/
def ofText (text : List Char) : Path :=
  ⟨Text.Utf8.encode text⟩

/-- The path spelled by a string. -/
def ofString (text : String) : Path :=
  ofText text.toList

/-- The spelling as a text, if it is UTF-8. -/
def text? (path : Path) : Option (List Char) :=
  Text.Utf8.decode? path.spelling

/-- The spelling for display, with U+FFFD for each piece that is not UTF-8. -/
def display (path : Path) : String :=
  String.ofList (Text.Utf8.decodeLossy path.spelling)

/-- The path starts at the root of the file system. -/
def isAbsolute (path : Path) : Bool :=
  path.spelling.head? = some slash

/-- The non-empty pieces of the spelling between slashes. -/
def names (path : Path) : List Bytes :=
  (pieces (· == slash) path.spelling).filter (· ≠ [])

/-- The component that a name after the first place stands for; `.` stands for none. -/
def componentOf? (name : Bytes) : Option Component :=
  if name = [dot] then none
  else if name = [dot, dot] then some .parent
  else some (.normal name)

/-- The components of the path. A leading `.` counts, any other `.` does not. -/
def components (path : Path) : List Component :=
  let inner := path.names.filterMap componentOf?
  if path.isAbsolute then .root :: inner
  else if path.names.head? = some [dot] then .current :: inner
  else inner

/-- Paths are compared component by component. -/
def compare (left right : Path) : Ordering :=
  List.compareLex Component.compare left.components right.components

/-- Two spellings of the same path. -/
def sameAs (left right : Path) : Bool :=
  left.components == right.components

/-- The last component, if it is a normal one. -/
def fileName? (path : Path) : Option Bytes :=
  match path.components.getLast? with
  | some (.normal name) => some name
  | _ => none

/-- The part of a file name after its last dot, unless nothing stands before that dot. -/
def extensionOf? (name : Bytes) : Option Bytes :=
  let backwards := name.reverse
  match backwards.dropWhile (· ≠ dot) with
  | [] | [_] => none
  | _ => some (backwards.takeWhile (· ≠ dot)).reverse

/-- The extension of the path's file name. -/
def extension? (path : Path) : Option Bytes :=
  path.fileName?.bind extensionOf?

/-- The path that leads from `base` on along `next`. An absolute `next` replaces `base`. -/
def join (base next : Path) : Path :=
  if next.isAbsolute then next
  else if base.spelling = [] ∨ base.spelling.getLast? = some slash then
    ⟨base.spelling ++ next.spelling⟩
  else ⟨base.spelling ++ slash :: next.spelling⟩

end Path

end FontCatalog
