import FontCatalog.Event
import FontCatalog.FileSystem.Access

/-!
# Walks

A walk visits everything below a directory. A directory is entered unless its path has become too
long. A symbolic link is passed over unless links are followed, and then a link to a directory that
is already open is a loop. A link leads only into directories that are not open yet, and every other
step goes one name deeper, so a walk ends on every file system.
-/

namespace FontCatalog

/-- A directory that is being walked: its location, and the path under which it was entered. -/
structure OpenDirectory where
  location : Location
  path : Path

/-- What a walk comes across. -/
inductive Finding where
  | file (path : Path)
  | fault (fault : WalkFault)
deriving DecidableEq

/-- The open directory at a location, the one that was opened last if there are several. -/
def openAt? (opened : List OpenDirectory) (location : Location) : Option OpenDirectory :=
  opened.find? fun directory => directory.location == location

namespace FileSystem

/-- How many directories of a file system are not open. -/
def unopened (files : FileSystem) (opened : List OpenDirectory) : Nat :=
  files.directories.countP fun location => (openAt? opened location).isNone

theorem openAt?_cons_isNone {directory : OpenDirectory} {opened : List OpenDirectory}
    {location : Location} (isUnopened : (openAt? (directory :: opened) location).isNone = true) :
    (openAt? opened location).isNone = true := by
  unfold openAt? at *
  rw [List.find?_cons] at isUnopened
  split at isUnopened
  · cases isUnopened
  · exact isUnopened

theorem unopened_cons_le (files : FileSystem) (directory : OpenDirectory)
    (opened : List OpenDirectory) :
    files.unopened (directory :: opened) ≤ files.unopened opened :=
  List.countP_mono_left fun _ _ isUnopened => openAt?_cons_isNone isUnopened

theorem unopened_cons_lt {files : FileSystem} {directory : OpenDirectory}
    {opened : List OpenDirectory} (isDirectory : directory.location ∈ files.directories)
    (isUnopened : (openAt? opened directory.location).isNone = true) :
    files.unopened (directory :: opened) < files.unopened opened := by
  have isOpened : (openAt? (directory :: opened) directory.location).isNone = false := by
    simp [openAt?]
  unfold unopened
  generalize files.directories = locations at isDirectory
  induction locations with
  | nil => cases isDirectory
  | cons location rest ih =>
      rcases List.mem_cons.mp isDirectory with same | later
      · subst same
        rw [List.countP_cons, List.countP_cons, if_neg (by simp [isOpened]), if_pos isUnopened]
        exact Nat.lt_succ_of_le
          (List.countP_mono_left fun _ _ isUnopened => openAt?_cons_isNone isUnopened)
      · have fewer := ih later
        rw [List.countP_cons, List.countP_cons]
        have kept : (if (openAt? (directory :: opened) location).isNone = true then 1 else 0) ≤
            (if (openAt? opened location).isNone = true then 1 else 0) := by
          split
          · rename_i stillUnopened
            simp [openAt?_cons_isNone stillUnopened]
          · exact Nat.zero_le _
        omega

/-- Walks the directory at a location, which was entered under a path and is itself among the open
directories. -/
def walk (files : FileSystem) (followsLinks : Bool) (opened : List OpenDirectory) (path : Path)
    (here : Location) : List Finding :=
  (files.children here).attach.flatMap fun ⟨(name, entry), _inside⟩ =>
    let childPath := path.join ⟨name⟩
    match entry with
    | .file _ => [.file childPath]
    | .directory =>
        if childPath.isTooLong then [.fault (.access childPath .nameTooLong)]
        else
          let child := here ++ [name]
          files.walk followsLinks (⟨child, childPath⟩ :: opened) childPath child
    | .link _ =>
        if followsLinks then
          match _located : files.locate .follow childPath with
          | .error fault => [.fault (.access childPath fault)]
          | .ok (target, .directory) =>
              match _alreadyOpen : openAt? opened target with
              | some ancestor => [.fault (.loop childPath ancestor.path)]
              | none => files.walk followsLinks (⟨target, childPath⟩ :: opened) childPath target
          | .ok _ => [.file childPath]
        else []
termination_by (files.unopened opened, files.depth - here.length)
decreasing_by
  · have fewer := files.unopened_cons_le ⟨here ++ [name], path.join ⟨name⟩⟩ opened
    have deeper := length_le_depth (mem_entries_of_mem_children _inside)
    simp only [List.length_append, List.length_singleton] at deeper
    rcases Nat.lt_or_eq_of_le fewer with less | same
    · exact Prod.Lex.left _ _ less
    · rw [same]
      refine Prod.Lex.right _ ?_
      simp only [List.length_append, List.length_singleton]
      omega
  · refine Prod.Lex.left _ _ (unopened_cons_lt ?_ (by simp [_alreadyOpen]))
    exact mem_directories_of_entryAt? (entryAt?_of_locate _located)

/-- Walks a root. A root that is a link to a directory is walked even if links are not followed,
and a root that is a file is found itself. -/
def walkRoot (files : FileSystem) (followsLinks : Bool) (root : Path) : List Finding :=
  match files.locate .keep root with
  | .error fault => [.fault (.access root fault)]
  | .ok (_, .file _) => [.file root]
  | .ok (location, .directory) => files.walk followsLinks [⟨location, root⟩] root location
  | .ok (_, .link _) =>
      match files.locate .follow root with
      | .error fault => [.fault (.access root fault)]
      | .ok (location, .directory) => files.walk followsLinks [⟨location, root⟩] root location
      | .ok _ => if followsLinks then [.file root] else []

end FileSystem

end FontCatalog
