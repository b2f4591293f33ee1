import FontCatalog.FileSystem.Resolution

/-!
# Access to files

Opening and reading of files, and the changes that a file system goes through between scans. A
directory can be opened, and only reading it fails.
-/

namespace FontCatalog

/-- A file that has been opened. -/
inductive OpenFile where
  | file (data : Bytes)
  | directory
deriving DecidableEq

/-- Reads an open file to its end. -/
def OpenFile.read : OpenFile → Except FileFault Bytes
  | file data => .ok data
  | directory => .error .isDirectory

namespace FileSystem

/-- Opens the file that a path leads to. -/
def openFile (files : FileSystem) (path : Path) : Except FileFault OpenFile := do
  match ← files.locate .follow path with
  | (_, .file data) => .ok (.file data)
  | (_, .directory) => .ok .directory
  | (_, .link _) => .error .tooManyLinks

/-- Reads the file that a path leads to. -/
def read (files : FileSystem) (path : Path) : Except FileFault Bytes := do
  let opened ← files.openFile path
  opened.read

/-- The path with only the first names of another path. -/
def pathOfNames (isAbsolute : Bool) (names : List Bytes) : Path :=
  let start : Path := ⟨if isAbsolute then [Path.slash] else []⟩
  names.foldl (fun path name => path.join ⟨name⟩) start

/-- Makes the directory that a path names, if nothing stands there. -/
def makeDirectory (files : FileSystem) (path : Path) : Except FileFault FileSystem := do
  match ← files.resolve .follow path with
  | .found _ .directory => .ok files
  | .found _ _ => .error .notDirectory
  | .free location => .ok (files.put location .directory)

/-- Makes the directories on the way along names, from the first `done` names on. -/
def makeDirectoriesFrom (files : FileSystem) (isAbsolute : Bool) (done : List Bytes) :
    List Bytes → Except FileFault FileSystem
  | [] => .ok files
  | name :: rest => do
      let next ← files.makeDirectory (pathOfNames isAbsolute (done ++ [name]))
      makeDirectoriesFrom next isAbsolute (done ++ [name]) rest

/-- Makes the directory that a path names, and all those on the way to it. -/
def makeDirectories (files : FileSystem) (path : Path) : Except FileFault FileSystem :=
  files.makeDirectoriesFrom path.isAbsolute [] path.names

/-- Makes the directories on the way to a path. -/
def makeParents (files : FileSystem) (path : Path) : Except FileFault FileSystem :=
  files.makeDirectoriesFrom path.isAbsolute [] path.names.dropLast

/-- Writes a file, in the place of the one that was there before, and makes the directories on the
way to it. -/
def write (files : FileSystem) (path : Path) (data : Bytes) : Except FileFault FileSystem := do
  let prepared ← files.makeParents path
  match ← prepared.resolve .follow path with
  | .found _ .directory => .error .isDirectory
  | .found location _ => .ok (prepared.put location (.file data))
  | .free location => .ok (prepared.put location (.file data))

/-- Makes a symbolic link, and the directories on the way to it. -/
def makeLink (files : FileSystem) (path target : Path) : Except FileFault FileSystem := do
  let prepared ← files.makeParents path
  match ← prepared.resolve .keep path with
  | .found _ _ => .error .notDirectory
  | .free location => .ok (prepared.put location (.link target))

/-- Removes what a path names, with everything below it. A link is removed, not its target. -/
def remove (files : FileSystem) (path : Path) : Except FileFault FileSystem := do
  let (location, _) ← files.locate .keep path
  .ok (files.erase location)

end FileSystem

end FontCatalog
