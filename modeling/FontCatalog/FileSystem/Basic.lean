import FontCatalog.Association
import FontCatalog.Path

/-!
# File systems

A file system maps locations to entries: files, directories and symbolic links. A location is the
list of the names on the way from the root, and the root itself is always a directory. Paths that
do not start with a slash are looked up from the working directory.
-/

namespace FontCatalog

/-- A place in a file system: the names on the way from the root. -/
abbrev Location := List Bytes

/-- What stands at a location. -/
inductive Entry where
  | file (data : Bytes)
  | directory
  | link (target : Path)
deriving DecidableEq

/-- A file system. -/
structure FileSystem where
  entries : Association Location Entry
  workingDirectory : Location

namespace FileSystem

/-- A file system that holds nothing but its working directory. -/
def withDirectory (name : Bytes) : FileSystem where
  entries := Association.empty.insert [name] .directory
  workingDirectory := [name]

/-- The entry at a location. -/
def entryAt? (files : FileSystem) (location : Location) : Option Entry :=
  if location = [] then some .directory else files.entries.get? location

/-- The file system with an entry put at a location. -/
def put (files : FileSystem) (location : Location) (entry : Entry) : FileSystem :=
  { files with entries := files.entries.insert location entry }

/-- The file system without a location and everything below it. -/
def erase (files : FileSystem) (location : Location) : FileSystem :=
  { files with
    entries := files.entries.filterKeys fun other => !location.isPrefixOf other }

/-- The names and entries inside a directory. -/
def children (files : FileSystem) (location : Location) : List (Bytes × Entry) :=
  files.entries.pairs.filterMap fun (place, entry) =>
    match place.getLast? with
    | none => none
    | some name => if place = location ++ [name] then some (name, entry) else none

/-- The locations of all directories, with the root in front. -/
def directories (files : FileSystem) : List Location :=
  [] :: files.entries.pairs.filterMap fun (place, entry) =>
    if entry = .directory then some place else none

/-- The length of the longest location. -/
def depth (files : FileSystem) : Nat :=
  (files.entries.pairs.map fun pair => pair.1.length).foldr max 0

theorem mem_entries_of_mem_children {files : FileSystem} {location : Location} {name : Bytes}
    {entry : Entry} (inside : (name, entry) ∈ files.children location) :
    (location ++ [name], entry) ∈ files.entries.pairs := by
  obtain ⟨⟨place, held⟩, held_mem, chosen⟩ := List.mem_filterMap.mp inside
  simp only at chosen
  split at chosen
  · cases chosen
  · split at chosen
    · rename_i same
      cases chosen
      exact same ▸ held_mem
    · cases chosen

theorem length_le_depth {files : FileSystem} {location : Location} {entry : Entry}
    (held : (location, entry) ∈ files.entries.pairs) : location.length ≤ files.depth := by
  unfold depth
  generalize files.entries.pairs = pairs at held
  induction pairs with
  | nil => cases held
  | cons pair rest ih =>
      simp only [List.map_cons, List.foldr_cons]
      rcases List.mem_cons.mp held with rfl | later
      · exact Nat.le_max_left _ _
      · exact Nat.le_trans (ih later) (Nat.le_max_right _ _)

theorem mem_directories_of_entryAt? {files : FileSystem} {location : Location}
    (found : files.entryAt? location = some .directory) : location ∈ files.directories := by
  unfold entryAt? at found
  split at found
  · rename_i isRoot
    subst isRoot
    exact List.mem_cons_self
  · refine List.mem_cons_of_mem _ (List.mem_filterMap.mpr ?_)
    exact ⟨(location, .directory), Association.mem_pairs_of_get? found, by simp⟩

end FileSystem

end FontCatalog
