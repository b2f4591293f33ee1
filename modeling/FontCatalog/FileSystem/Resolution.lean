import FontCatalog.FileSystem.Basic
import FontCatalog.FileSystem.Fault

/-!
# Resolution of paths

A path is followed name by name. A symbolic link on the way is replaced by its target, and at most
forty links are followed on one path. A link at the very end is followed only when asked for. A
slash at the end of a path asks for a directory. Names and whole paths have a greatest length.
-/

namespace FontCatalog

/-- Whether a symbolic link at the end of a path is followed. -/
inductive LinkPolicy where
  | follow
  | keep
deriving DecidableEq

/-- Where a path ends. -/
inductive Destination where
  /-- At an entry. -/
  | found (location : Location) (entry : Entry)
  /-- At a free name in a directory. -/
  | free (location : Location)

/-- The names that a path leads through. A slash at the end stands for the name `.`, which only a
directory has. -/
def Path.steps (path : Path) : List Bytes :=
  if path.spelling.getLast? = some Path.slash then path.names ++ [[Path.dot]] else path.names

/-- The length that the spelling of a path has to stay below. -/
def Path.lengthLimit : Nat := 4096

/-- The path is too long to be followed. -/
def Path.isTooLong (path : Path) : Bool :=
  Path.lengthLimit ≤ path.spelling.length

theorem bind_eq_ok_iff {ε α β : Type} {result : Except ε α} {next : α → Except ε β}
    {value : β} :
    (result >>= next) = .ok value ↔ ∃ first, result = .ok first ∧ next first = .ok value := by
  cases result with
  | ok first => simp [bind, Except.bind]
  | error fault => simp [bind, Except.bind]

namespace FileSystem

/-- The greatest length of a name. -/
def nameLimit : Nat := 255

/-- The number of links that are followed on one path. -/
def linkLimit : Nat := 40

/-- Follows names from a location on. -/
def follow (files : FileSystem) (policy : LinkPolicy) (links : Nat) (here : Location)
    (names : List Bytes) : Except FileFault Destination :=
  match names with
  | [] =>
      match files.entryAt? here with
      | some .directory => .ok (.found here .directory)
      | _ => .error .notFound
  | name :: rest =>
      if name = [Path.dot] then follow files policy links here rest
      else if name = [Path.dot, Path.dot] then follow files policy links here.dropLast rest
      else if nameLimit < name.length then .error .nameTooLong
      else
        match files.entryAt? (here ++ [name]) with
        | none => if rest = [] then .ok (.free (here ++ [name])) else .error .notFound
        | some .directory => follow files policy links (here ++ [name]) rest
        | some (.file data) =>
            if rest = [] then .ok (.found (here ++ [name]) (.file data))
            else .error .notDirectory
        | some (.link target) =>
            if rest = [] ∧ policy = .keep then .ok (.found (here ++ [name]) (.link target))
            else
              match links with
              | 0 => .error .tooManyLinks
              | links + 1 =>
                  let base := if target.isAbsolute then [] else here
                  follow files policy links base (target.steps ++ rest)
termination_by (links, names.length)

theorem entryAt?_of_follow {files : FileSystem} {policy : LinkPolicy} {links : Nat}
    {here location : Location} {names : List Bytes} {entry : Entry}
    (reached : files.follow policy links here names = .ok (.found location entry)) :
    files.entryAt? location = some entry := by
  fun_induction files.follow policy links here names <;> simp_all

/-- Where a path leads. -/
def resolve (files : FileSystem) (policy : LinkPolicy) (path : Path) :
    Except FileFault Destination :=
  if path.spelling = [] then .error .notFound
  else if path.spelling.contains 0 then .error .zeroByte
  else if path.isTooLong then .error .nameTooLong
  else
    let base := if path.isAbsolute then [] else files.workingDirectory
    files.follow policy linkLimit base path.steps

/-- The entry that a path leads to, and where it stands. -/
def locate (files : FileSystem) (policy : LinkPolicy) (path : Path) :
    Except FileFault (Location × Entry) := do
  match ← files.resolve policy path with
  | .found location entry => .ok (location, entry)
  | .free _ => .error .notFound

theorem resolve_eq_ok_iff {files : FileSystem} {policy : LinkPolicy} {path : Path}
    {destination : Destination} :
    files.resolve policy path = .ok destination ↔
      (path.spelling ≠ [] ∧ path.spelling.contains 0 = false ∧ path.isTooLong = false) ∧
        files.follow policy linkLimit (if path.isAbsolute then [] else files.workingDirectory)
          path.steps = .ok destination := by
  unfold resolve
  split
  · simp [*]
  · split
    · simp_all
    · split <;> simp_all

theorem locate_eq_ok_iff {files : FileSystem} {policy : LinkPolicy} {path : Path}
    {location : Location} {entry : Entry} :
    files.locate policy path = .ok (location, entry) ↔
      files.resolve policy path = .ok (.found location entry) := by
  unfold locate
  rw [bind_eq_ok_iff]
  constructor
  · rintro ⟨destination, resolved, isFound⟩
    cases destination with
    | found place held =>
        cases isFound
        exact resolved
    | free place => cases isFound
  · intro resolved
    exact ⟨_, resolved, rfl⟩

theorem entryAt?_of_locate {files : FileSystem} {policy : LinkPolicy} {path : Path}
    {location : Location} {entry : Entry}
    (located : files.locate policy path = .ok (location, entry)) :
    files.entryAt? location = some entry :=
  entryAt?_of_follow (resolve_eq_ok_iff.mp (locate_eq_ok_iff.mp located)).2

/-- The path leads to an entry. -/
def pathExists (files : FileSystem) (path : Path) : Bool :=
  match files.locate .follow path with
  | .ok _ => true
  | .error _ => false

/-- The path leads to a directory. -/
def isDirectory (files : FileSystem) (path : Path) : Bool :=
  match files.locate .follow path with
  | .ok (_, .directory) => true
  | _ => false

end FileSystem

end FontCatalog
