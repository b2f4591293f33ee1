import FontCatalog.Proofs.JoinedPaths
import FontCatalog.Session

/-!
# The names of entries

What stands in a directory has a name of its own there, which is neither empty nor holds a slash.
Every change to a file system keeps it so: a location that comes new is where a path leads, and a
path has no other names.
-/

namespace FontCatalog

/-- A location that a path can spell. -/
def Location.Spelled (location : Location) : Prop :=
  ∀ name ∈ location, Path.IsName name

theorem Location.spelled_nil : Location.Spelled [] := by
  intro name inside
  cases inside

theorem Location.spelled_concat {location : Location} {name : Bytes} :
    Location.Spelled (location ++ [name]) ↔ location.Spelled ∧ Path.IsName name := by
  rw [Location.Spelled, List.forall_mem_append, List.forall_mem_singleton]
  rfl

theorem Location.spelled_dropLast {location : Location} (spelled : location.Spelled) :
    Location.Spelled location.dropLast := by
  intro name inside
  exact spelled name (List.dropLast_subset location inside)

theorem Path.isName_of_mem_steps {path : Path} {name : Bytes} (inside : name ∈ path.steps) :
    IsName name := by
  unfold steps at inside
  split at inside
  · rcases List.mem_append.mp inside with isName | isDot
    · exact isName_of_mem_names isName
    · rw [List.mem_singleton.mp isDot]
      decide
  · exact isName_of_mem_names inside

/-- Where a path ends, whether or not something stands there. -/
def Destination.location : Destination → Location
  | .found location _ => location
  | .free location => location

namespace FileSystem

/-- Every entry of the file system stands where a path can lead, and so does the working
directory. -/
structure Named (files : FileSystem) : Prop where
  entries : ∀ location entry, files.entryAt? location = some entry → location.Spelled
  workingDirectory : Location.Spelled files.workingDirectory

variable {files : FileSystem} {here location : Location} {name : Bytes} {entry : Entry}

/-! ## Entries of a directory -/

theorem entryAt?_eq_some_iff (notRoot : location ≠ []) :
    files.entryAt? location = some entry ↔ (location, entry) ∈ files.entries.pairs := by
  rw [entryAt?, if_neg notRoot, Association.get?_eq_some_iff]

theorem mem_children_iff :
    (name, entry) ∈ files.children here ↔ files.entryAt? (here ++ [name]) = some entry := by
  rw [entryAt?_eq_some_iff (by simp)]
  constructor
  · exact mem_entries_of_mem_children
  · intro held
    refine List.mem_filterMap.mpr ⟨_, held, ?_⟩
    simp

/-- No two entries of a directory have the same name. -/
theorem nodup_names_children (files : FileSystem) (here : Location) :
    ((files.children here).map Prod.fst).Nodup := by
  have distinct := files.entries.distinct
  rw [List.Nodup, List.pairwise_map] at distinct ⊢
  refine List.Pairwise.filterMap _ ?_ distinct
  rintro ⟨first, firstEntry⟩ ⟨second, secondEntry⟩ different child chosen other otherChosen sameName
  apply different
  simp only at chosen otherChosen
  split at chosen
  · cases chosen
  · split at otherChosen
    · cases otherChosen
    · -- each of the two is chosen only at the place that its name leads to
      rcases Option.ite_none_right_eq_some.mp chosen with ⟨isFirst, isChild⟩
      rcases Option.ite_none_right_eq_some.mp otherChosen with ⟨isSecond, isOther⟩
      cases isChild
      cases isOther
      rw [isFirst, isSecond]
      exact congrArg (here ++ [·]) sameName

theorem Named.isName_of_entryAt? (named : files.Named)
    (held : files.entryAt? (here ++ [name]) = some entry) : Path.IsName name :=
  (Location.spelled_concat.mp (named.entries _ _ held)).2

/-! ## Changes -/

theorem named_withDirectory (isName : Path.IsName name) : (withDirectory name).Named := by
  have spelled : Location.Spelled [name] :=
    Location.spelled_concat.mpr ⟨Location.spelled_nil, isName⟩
  refine ⟨?_, spelled⟩
  intro location entry held
  rw [entryAt?, withDirectory, Association.get?_insert] at held
  split at held
  · rename_i isRoot
    exact isRoot ▸ Location.spelled_nil
  · split at held
    · rename_i isOnly
      exact isOnly ▸ spelled
    · cases held

theorem Named.put (named : files.Named) (spelled : location.Spelled) (entry : Entry) :
    (files.put location entry).Named := by
  refine ⟨?_, named.workingDirectory⟩
  intro other otherEntry held
  rw [entryAt?, FileSystem.put, Association.get?_insert] at held
  split at held
  · rename_i isRoot
    exact isRoot ▸ Location.spelled_nil
  · rename_i notRoot
    split at held
    · rename_i replaced
      exact replaced ▸ spelled
    · exact named.entries other otherEntry (by rw [entryAt?, if_neg notRoot, held])

theorem Named.erase (named : files.Named) (location : Location) : (files.erase location).Named := by
  refine ⟨?_, named.workingDirectory⟩
  intro other otherEntry held
  by_cases isRoot : other = []
  · exact isRoot ▸ Location.spelled_nil
  · rw [entryAt?_eq_some_iff isRoot] at held
    apply named.entries other otherEntry
    rw [entryAt?_eq_some_iff isRoot]
    exact (List.mem_filter.mp held).1

/-- Following names from a location leads to a location that is put together from names of its own
and of link targets. -/
theorem spelled_of_follow {policy : LinkPolicy} {links : Nat} {names : List Bytes}
    {destination : Destination} (reached : files.follow policy links here names = .ok destination)
    (spelled : here.Spelled) (areNames : ∀ name ∈ names, Path.IsName name) :
    destination.location.Spelled := by
  fun_induction files.follow policy links here names with
  | case1 links here found =>
      cases reached
      exact spelled
  | case3 links here rest ih =>
      exact ih reached spelled (List.forall_mem_cons.mp areNames).2
  | case4 links here rest notDot ih =>
      exact ih reached (Location.spelled_dropLast spelled) (List.forall_mem_cons.mp areNames).2
  | case6 | case9 | case11 =>
      cases reached
      exact Location.spelled_concat.mpr ⟨spelled, (List.forall_mem_cons.mp areNames).1⟩
  | case8 links here name rest notDot notParent notLong found ih =>
      rw [List.forall_mem_cons] at areNames
      exact ih reached (Location.spelled_concat.mpr ⟨spelled, areNames.1⟩) areNames.2
  | case13 here name rest notDot notParent notLong target found notKept links base ih =>
      apply ih reached
      · simp only [base]
        split
        · exact Location.spelled_nil
        · exact spelled
      · intro other inside
        rcases List.mem_append.mp inside with inTarget | later
        · exact Path.isName_of_mem_steps inTarget
        · exact (List.forall_mem_cons.mp areNames).2 other later
  | case2 | case5 | case7 | case10 | case12 => cases reached

theorem Named.spelled_of_resolve (named : files.Named) {policy : LinkPolicy} {path : Path}
    {destination : Destination} (resolved : files.resolve policy path = .ok destination) :
    destination.location.Spelled := by
  apply spelled_of_follow (resolve_eq_ok_iff.mp resolved).2
  · split
    · exact Location.spelled_nil
    · exact named.workingDirectory
  · intro name inside
    exact Path.isName_of_mem_steps inside

variable {path target : Path} {data : Bytes} {after : FileSystem}

theorem Named.makeDirectory (named : files.Named) (made : files.makeDirectory path = .ok after) :
    after.Named := by
  rcases bind_eq_ok_iff.mp made with ⟨destination, resolved, isAfter⟩
  have spelled := named.spelled_of_resolve resolved
  split at isAfter
  · cases isAfter
    exact named
  · cases isAfter
  · cases isAfter
    exact named.put spelled .directory

theorem Named.makeDirectoriesFrom {isAbsolute : Bool} {done names : List Bytes}
    (named : files.Named) (made : files.makeDirectoriesFrom isAbsolute done names = .ok after) :
    after.Named := by
  induction names generalizing files done with
  | nil =>
      cases made
      exact named
  | cons name rest ih =>
      rcases bind_eq_ok_iff.mp made with ⟨next, madeNext, madeRest⟩
      exact ih (named.makeDirectory madeNext) madeRest

theorem Named.makeDirectories (named : files.Named)
    (made : files.makeDirectories path = .ok after) : after.Named :=
  named.makeDirectoriesFrom made

theorem Named.write (named : files.Named) (written : files.write path data = .ok after) :
    after.Named := by
  rcases bind_eq_ok_iff.mp written with ⟨prepared, made, writtenThere⟩
  rcases bind_eq_ok_iff.mp writtenThere with ⟨destination, resolved, isAfter⟩
  have preparedNamed := named.makeDirectoriesFrom made
  have spelled := preparedNamed.spelled_of_resolve resolved
  split at isAfter
  · cases isAfter
  · cases isAfter
    exact preparedNamed.put spelled (.file data)
  · cases isAfter
    exact preparedNamed.put spelled (.file data)

theorem Named.makeLink (named : files.Named) (made : files.makeLink path target = .ok after) :
    after.Named := by
  rcases bind_eq_ok_iff.mp made with ⟨prepared, madeParents, madeThere⟩
  rcases bind_eq_ok_iff.mp madeThere with ⟨destination, resolved, isAfter⟩
  have preparedNamed := named.makeDirectoriesFrom madeParents
  have spelled := preparedNamed.spelled_of_resolve resolved
  split at isAfter
  · cases isAfter
  · cases isAfter
    exact preparedNamed.put spelled (.link target)

theorem Named.remove (named : files.Named) (removed : files.remove path = .ok after) :
    after.Named := by
  rcases bind_eq_ok_iff.mp removed with ⟨⟨location, entry⟩, located, isAfter⟩
  cases isAfter
  exact named.erase location

end FileSystem

/-! ## Sessions -/

namespace Session

variable {session : Session}

theorem named_changeFiles (named : session.files.Named) {changed : Except FileFault FileSystem}
    (keeps : ∀ after, changed = .ok after → after.Named) :
    (session.changeFiles changed).session.files.Named := by
  cases changed with
  | ok after => exact keeps after rfl
  | error fault => exact named

theorem files_getFontsInOrder (session : Session) (records : List FontRecord) :
    (session.getFontsInOrder records).1.files = session.files := by
  induction records generalizing session with
  | nil => rfl
  | cons record rest ih => exact ih (session.getFont record).1

theorem named_perform (named : session.files.Named) (action : Action) :
    (session.perform action).session.files.Named := by
  cases action with
  | write path data => exact named_changeFiles named fun _ => named.write
  | makeDirectories path => exact named_changeFiles named fun _ => named.makeDirectories
  | remove path => exact named_changeFiles named fun _ => named.remove
  | getFonts records schedule =>
      simp only [perform, getFonts]
      split
      · exact named
      · rw [files_getFontsInOrder]
        exact named
  | _ => exact named

/-- The names of entries stay in order for as long as a session lasts. -/
theorem named_run (named : session.files.Named) (actions : List Action) :
    (session.run actions).files.Named := by
  induction actions generalizing session with
  | nil => exact named
  | cons action rest ih => exact ih (named_perform named action)

end Session

end FontCatalog
