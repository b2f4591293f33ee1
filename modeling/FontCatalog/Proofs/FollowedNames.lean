import FontCatalog.FileSystem.Access
import FontCatalog.Proofs.JoinedPaths

/-!
# Names that a path is followed along

A path is followed one name at a time. The name of a directory leads into that directory, and the
name of a file, or a name that nothing has, is where the path ends. So a file in the working
directory is read under its own name, whatever else the file system holds.
-/

namespace FontCatalog

namespace FileSystem

/-- A name that is looked up among the entries of a directory: it stands neither for the directory
itself nor for the one around it, and it is not too long. -/
def LookedUp (name : Bytes) : Prop :=
  name ≠ [Path.dot] ∧ name ≠ [Path.dot, Path.dot] ∧ name.length ≤ nameLimit

instance (name : Bytes) : Decidable (LookedUp name) :=
  inferInstanceAs (Decidable (_ ∧ _ ∧ _))

variable {files : FileSystem} {policy : LinkPolicy} {links : Nat} {here location : Location}
  {name : Bytes} {rest : List Bytes} {path : Path} {entry : Entry} {data : Bytes}

/-! ## One name -/

theorem follow_nil (held : files.entryAt? here = some .directory) :
    files.follow policy links here [] = .ok (.found here .directory) := by
  rw [follow, held]

theorem follow_parent : files.follow policy links here ([Path.dot, Path.dot] :: rest) =
    files.follow policy links here.dropLast rest := by
  rw [follow, if_neg (by decide), if_pos rfl]

theorem follow_directory (lookedUp : LookedUp name)
    (held : files.entryAt? (here ++ [name]) = some .directory) :
    files.follow policy links here (name :: rest) =
      files.follow policy links (here ++ [name]) rest := by
  rw [follow, if_neg lookedUp.1, if_neg lookedUp.2.1, if_neg (Nat.not_lt.mpr lookedUp.2.2), held]

theorem follow_file (lookedUp : LookedUp name)
    (held : files.entryAt? (here ++ [name]) = some (.file data)) :
    files.follow policy links here [name] = .ok (.found (here ++ [name]) (.file data)) := by
  rw [follow, if_neg lookedUp.1, if_neg lookedUp.2.1, if_neg (Nat.not_lt.mpr lookedUp.2.2), held]
  rfl

/-- A relative link is followed from the directory that it stands in. -/
theorem follow_link (lookedUp : LookedUp name) {target : Path}
    (held : files.entryAt? (here ++ [name]) = some (.link target))
    (isRelative : target.isAbsolute = false) :
    files.follow .follow (links + 1) here (name :: rest) =
      files.follow .follow links here (target.steps ++ rest) := by
  rw [follow, if_neg lookedUp.1, if_neg lookedUp.2.1, if_neg (Nat.not_lt.mpr lookedUp.2.2), held]
  simp [isRelative]

theorem follow_free (lookedUp : LookedUp name)
    (absent : files.entryAt? (here ++ [name]) = none) :
    files.follow policy links here [name] = .ok (.free (here ++ [name])) := by
  rw [follow, if_neg lookedUp.1, if_neg lookedUp.2.1, if_neg (Nat.not_lt.mpr lookedUp.2.2),
    absent]
  rfl

/-! ## Relative paths -/

/-- The path is followed from the working directory along names. -/
def LeadsAlong (path : Path) (names : List Bytes) : Prop :=
  (path.spelling ≠ [] ∧ path.spelling.contains 0 = false ∧ path.isTooLong = false) ∧
    path.isAbsolute = false ∧ path.steps = names

instance (path : Path) (names : List Bytes) : Decidable (LeadsAlong path names) :=
  inferInstanceAs (Decidable ((_ ∧ _ ∧ _) ∧ _ ∧ _))

theorem resolve_eq_ok_of_follow {names : List Bytes} {destination : Destination}
    (leads : LeadsAlong path names)
    (reached : files.follow policy linkLimit files.workingDirectory names = .ok destination) :
    files.resolve policy path = .ok destination := by
  rcases leads with ⟨isAllowed, isRelative, isSteps⟩
  rw [resolve_eq_ok_iff, isRelative, isSteps]
  exact ⟨isAllowed, reached⟩

theorem locate_eq_ok_of_follow {names : List Bytes} (leads : LeadsAlong path names)
    (reached : files.follow policy linkLimit files.workingDirectory names =
      .ok (.found location entry)) : files.locate policy path = .ok (location, entry) :=
  locate_eq_ok_iff.mpr (resolve_eq_ok_of_follow leads reached)

theorem read_eq_ok_of_follow {names : List Bytes} (leads : LeadsAlong path names)
    (reached : files.follow .follow linkLimit files.workingDirectory names =
      .ok (.found location (.file data))) : files.read path = .ok data := by
  simp only [read, openFile, locate_eq_ok_of_follow leads reached]
  rfl

theorem read_eq_error_of_follow {names : List Bytes} (leads : LeadsAlong path names)
    (reached : files.follow .follow linkLimit files.workingDirectory names =
      .ok (.free location)) : files.read path = .error .notFound := by
  simp only [read, openFile, locate, resolve_eq_ok_of_follow leads reached]
  rfl

/-! ## Names in the working directory -/

/-- The path is a single name, which is looked up in the working directory. -/
def IsSingleName (path : Path) : Prop :=
  Path.IsName path.spelling ∧ LookedUp path.spelling ∧ 0 ∉ path.spelling

instance (path : Path) : Decidable (IsSingleName path) :=
  inferInstanceAs (Decidable (_ ∧ _ ∧ _))

/-- Where the entry of such a name stands. -/
def placeOf (files : FileSystem) (path : Path) : Location :=
  files.workingDirectory ++ [path.spelling]

theorem IsSingleName.leadsAlong (isSingle : IsSingleName path) :
    LeadsAlong path [path.spelling] := by
  rcases isSingle with ⟨isName, lookedUp, noZero⟩
  have notTooLong : path.isTooLong = false := by
    have bound : path.spelling.length ≤ 255 := lookedUp.2.2
    apply decide_eq_false
    rw [Path.lengthLimit]
    omega
  have notSlash : path.spelling.getLast? ≠ some Path.slash :=
    fun isLast => isName.2 (List.mem_of_getLast? isLast)
  refine ⟨⟨isName.1, by simpa using noZero, notTooLong⟩, Path.not_isAbsolute_of_isName isName, ?_⟩
  rw [Path.steps, if_neg notSlash, Path.names_of_isName isName]

theorem IsSingleName.read_eq_ok (isSingle : IsSingleName path)
    (held : files.entryAt? (files.placeOf path) = some (.file data)) :
    files.read path = .ok data :=
  read_eq_ok_of_follow isSingle.leadsAlong (follow_file isSingle.2.1 held)

theorem IsSingleName.write_eq_ok (isSingle : IsSingleName path) (data : Bytes) {old : Bytes}
    (held : files.entryAt? (files.placeOf path) = some (.file old)) :
    files.write path data = .ok (files.put (files.placeOf path) (.file data)) := by
  have noParents : files.makeParents path = .ok files := by
    rw [makeParents, Path.names_of_isName isSingle.1]
    rfl
  have reached : files.resolve .follow path =
      .ok (.found (files.placeOf path) (.file old)) :=
    resolve_eq_ok_of_follow isSingle.leadsAlong (follow_file isSingle.2.1 held)
  simp only [write, noParents, bind, Except.bind, reached]

end FileSystem

end FontCatalog
