import FontCatalog.Discovery.Basic
import FontCatalog.Proofs.FollowedNames
import FontCatalog.Proofs.WalkSteps

/-!
# Fonts that a discovery finds

A discovery goes through its roots one after another. Without links it finds exactly the font files
that stand at a root or below it, each once. With links it finds every font file on a way that
never enters a directory that is open already; a link that leads nowhere, or to an open directory,
is reported once and keeps nothing else from being found.

There is one limit to both: a directory is entered under its path, and one whose path has become
too long is reported and not entered.
-/

namespace FontCatalog

/-- No directory on the way along names from a root has a path that is too long. -/
def Path.Enterable (root : Path) (names : List Bytes) : Prop :=
  ∀ front, front <+: names.dropLast → (root.along front).isTooLong = false

theorem Path.Enterable.of_cons {path : Path} {name : Bytes} {rest : List Bytes}
    (enterable : path.Enterable (name :: rest)) (notLast : rest ≠ []) :
    (path.join ⟨name⟩).isTooLong = false ∧ (path.join ⟨name⟩).Enterable rest := by
  rw [Enterable, List.dropLast_cons_of_ne_nil notLast] at enterable
  constructor
  · exact enterable [name] (by simp)
  · intro front isFront
    exact enterable (name :: front) (by simpa using isFront)

/-- The position in which the walk of a root starts. -/
def WalkPosition.start (root : Path) (base : Location) : WalkPosition where
  opened := [⟨base, root⟩]
  path := root
  here := base

namespace FileSystem

variable {files : FileSystem} {followsLinks : Bool} {position next last : WalkPosition}
  {root path : Path} {name : Bytes} {names : List Bytes} {entry : Entry} {finding : Finding}
  {base location : Location} {data : Bytes}

/-- A file that stands at a root or below it, with directories only on the way. The root itself may
be a link to a directory. -/
inductive PlainFile (files : FileSystem) (root : Path) : List Bytes → Prop
  | root {location : Location} {data : Bytes}
      (stands : files.locate .keep root = .ok (location, .file data)) : PlainFile files root []
  | below {base : Location} {ways : List Bytes} {name data : Bytes}
      (leads : files.locate .follow root = .ok (base, .directory))
      (passes : ∀ front, front <+: ways → files.entryAt? (base ++ front) = some .directory)
      (stands : files.entryAt? (base ++ ways ++ [name]) = some (.file data)) :
      PlainFile files root (ways ++ [name])

/-- Names that lead from a directory to a file, through directories and links to directories that
are not open when they are entered. -/
inductive Trail (files : FileSystem) : List Location → Path → Location → List Bytes → Prop
  | file {opened : List Location} {path : Path} {here : Location} {name data : Bytes}
      (stands : files.entryAt? (here ++ [name]) = some (.file data)) :
      Trail files opened path here [name]
  | linkedFile {opened : List Location} {path target : Path} {here location : Location}
      {name data : Bytes} (stands : files.entryAt? (here ++ [name]) = some (.link target))
      (leads : files.locate .follow (path.join ⟨name⟩) = .ok (location, .file data)) :
      Trail files opened path here [name]
  | directory {opened : List Location} {path : Path} {here : Location} {name : Bytes}
      {rest : List Bytes} (stands : files.entryAt? (here ++ [name]) = some .directory)
      (isUnopened : here ++ [name] ∉ opened)
      (trail : Trail files ((here ++ [name]) :: opened) (path.join ⟨name⟩) (here ++ [name]) rest) :
      Trail files opened path here (name :: rest)
  | link {opened : List Location} {path target : Path} {here location : Location} {name : Bytes}
      {rest : List Bytes} (stands : files.entryAt? (here ++ [name]) = some (.link target))
      (leads : files.locate .follow (path.join ⟨name⟩) = .ok (location, .directory))
      (isUnopened : location ∉ opened)
      (trail : Trail files (location :: opened) (path.join ⟨name⟩) location rest) :
      Trail files opened path here (name :: rest)

/-- A file that a root leads to, or that a trail from there leads to. -/
inductive LinkedFile (files : FileSystem) (root : Path) : List Bytes → Prop
  | root {location : Location} {data : Bytes}
      (leads : files.locate .follow root = .ok (location, .file data)) : LinkedFile files root []
  | below {base : Location} {names : List Bytes}
      (leads : files.locate .follow root = .ok (base, .directory))
      (trail : files.Trail [base] root base names) : LinkedFile files root names

/-- What the walk of a root comes across. -/
inductive Meets (files : FileSystem) (followsLinks : Bool) (root : Path) : Finding → Prop
  | root {location : Location} {data : Bytes}
      (leads : files.locate (if followsLinks then .follow else .keep) root =
        .ok (location, .file data)) : Meets files followsLinks root (.file root)
  | below {base : Location} {names : List Bytes} {last : WalkPosition} {name : Bytes}
      {finding : Finding} (leads : files.locate .follow root = .ok (base, .directory))
      (reaches : files.Reaches followsLinks (.start root base) names last)
      (notes : files.Notes followsLinks last name finding) : Meets files followsLinks root finding

/-! ## Roots -/

theorem isTooLong_eq_false_of_locate {policy : LinkPolicy}
    (located : files.locate policy path = .ok (location, entry)) : path.isTooLong = false :=
  (resolve_eq_ok_iff.mp (locate_eq_ok_iff.mp located)).1.2.2

theorem pathExists_eq_true_iff :
    files.pathExists path = true ↔ ∃ place, files.locate .follow path = .ok place := by
  unfold pathExists
  split <;> simp [*]

theorem walkRoot_of_directory (leads : files.locate .follow root = .ok (base, .directory)) :
    files.walkRoot followsLinks root = files.walkFrom followsLinks (.start root base) := by
  rcases locate_keep_of_follow leads with same | ⟨place, target, isLink⟩
  · simp only [walkRoot, same]
    rfl
  · simp only [walkRoot, isLink, leads]
    rfl

theorem walkRoot_of_file (leads : files.locate .follow root = .ok (location, .file data)) :
    files.walkRoot followsLinks root =
      if followsLinks = true ∨ files.locate .keep root = .ok (location, .file data)
      then [.file root] else [] := by
  rcases locate_keep_of_follow leads with same | ⟨place, target, isLink⟩
  · simp [walkRoot, same]
  · simp [walkRoot, isLink, leads]

theorem meets_root_iff (leads : files.locate .follow root = .ok (location, .file data)) :
    files.Meets followsLinks root finding ↔ finding = .file root ∧
      (followsLinks = true ∨ files.locate .keep root = .ok (location, .file data)) := by
  constructor
  · intro meets
    cases meets with
    | root stands =>
        cases followsLinks with
        | true => exact ⟨rfl, .inl rfl⟩
        | false =>
            rcases locate_keep_of_follow leads with same | ⟨place, target, isLink⟩
            · exact ⟨rfl, .inr same⟩
            · cases isLink.symm.trans stands
    | below leadsBelow => cases leads.symm.trans leadsBelow
  · rintro ⟨rfl, rfl | stands⟩
    · exact .root leads
    · cases followsLinks with
      | true => exact .root leads
      | false => exact .root stands

theorem meets_below_iff (leads : files.locate .follow root = .ok (base, .directory)) :
    files.Meets followsLinks root finding ↔
      ∃ names last name, files.Reaches followsLinks (.start root base) names last ∧
        files.Notes followsLinks last name finding := by
  constructor
  · intro meets
    cases meets with
    | root stands =>
        cases followsLinks with
        | true => cases leads.symm.trans stands
        | false =>
            rcases locate_keep_of_follow leads with same | ⟨place, target, isLink⟩
            · cases same.symm.trans stands
            · cases isLink.symm.trans stands
    | below leadsBelow reaches notes =>
        cases leads.symm.trans leadsBelow
        exact ⟨_, _, _, reaches, notes⟩
  · rintro ⟨names, last, name, reaches, notes⟩
    exact .below leads reaches notes

/-- A root that exists leads to a file or to a directory. -/
theorem file_or_directory_of_pathExists (isThere : files.pathExists root = true) :
    (∃ location data, files.locate .follow root = .ok (location, .file data)) ∨
      ∃ base, files.locate .follow root = .ok (base, .directory) := by
  rcases pathExists_eq_true_iff.mp isThere with ⟨⟨location, entry⟩, leads⟩
  cases entry with
  | file data => exact .inl ⟨location, data, leads⟩
  | directory => exact .inr ⟨location, leads⟩
  | link target => exact absurd leads locate_follow_ne_link

theorem mem_walkRoot_iff (isThere : files.pathExists root = true) :
    finding ∈ files.walkRoot followsLinks root ↔ files.Meets followsLinks root finding := by
  rcases file_or_directory_of_pathExists isThere with ⟨location, data, leads⟩ | ⟨base, leads⟩
  · rw [walkRoot_of_file leads, meets_root_iff leads]
    split <;> simp [*]
  · rw [walkRoot_of_directory leads, meets_below_iff leads, mem_walkFrom_iff_exists_reaches]

theorem nodup_paths_walkRoot (named : files.Named) (isThere : files.pathExists root = true) :
    ((files.walkRoot followsLinks root).map Finding.path).Nodup := by
  rcases file_or_directory_of_pathExists isThere with ⟨location, data, leads⟩ | ⟨base, leads⟩
  · rw [walkRoot_of_file leads]
    split <;> simp
  · rw [walkRoot_of_directory leads]
    exact nodup_paths_walkFrom named followsLinks _

/-! ## Walks that do not follow links -/

theorem Reaches.here_eq (reaches : files.Reaches false position names last) :
    last.here = position.here ++ names := by
  induction reaches with
  | here position => simp
  | step enters reaches ih =>
      cases enters with
      | directory stands isShort => simp [ih, WalkPosition.enter]
      | link follows => cases follows

/-- Without links, the names that are entered are those of directories whose paths are not too
long. -/
theorem exists_reaches_iff : (∃ last, files.Reaches false position names last) ↔
    ∀ front, front <+: names → front ≠ [] →
      files.entryAt? (position.here ++ front) = some .directory ∧
        (position.path.along front).isTooLong = false := by
  constructor
  · rintro ⟨last, reaches⟩
    induction reaches with
    | here position => simp
    | @step position next last name rest enters reaches ih =>
        cases enters with
        | directory stands isShort =>
            intro front isFront notEmpty
            rcases List.prefix_cons_iff.mp isFront with rfl | ⟨front, rfl, isFrontOfRest⟩
            · exact absurd rfl notEmpty
            · by_cases isOnly : front = []
              · subst isOnly
                exact ⟨stands, isShort⟩
              · have further := ih front isFrontOfRest isOnly
                rw [WalkPosition.enter, List.append_assoc] at further
                exact further
        | link follows => cases follows
  · intro passes
    induction names generalizing position with
    | nil => exact ⟨position, .here position⟩
    | cons name rest ih =>
        have first := passes [name] (by simp) (by simp)
        have enters : files.Enters false position name
            (position.enter name (position.here ++ [name])) := .directory first.1 first.2
        have further : ∃ last,
            files.Reaches false (position.enter name (position.here ++ [name])) rest last := by
          apply ih
          intro front isFront notEmpty
          have isFrontOfAll : name :: front <+: name :: rest := by simpa using isFront
          simpa [WalkPosition.enter] using passes (name :: front) isFrontOfAll (by simp)
        rcases further with ⟨last, reaches⟩
        exact ⟨last, .step enters reaches⟩

theorem enterable_concat : root.Enterable (names ++ [name]) ↔
    ∀ front, front <+: names → (root.along front).isTooLong = false := by
  rw [Path.Enterable, List.dropLast_concat]

/-- Without links, a walk comes across the plain files to which no directory is in the way. -/
theorem meets_file_iff : files.Meets false root (.file path) ↔
    ∃ names, files.PlainFile root names ∧ root.Enterable names ∧ path = root.along names := by
  constructor
  · intro meets
    cases meets with
    | root stands =>
        refine ⟨[], .root stands, ?_, rfl⟩
        intro front isFront
        rw [List.dropLast_nil, List.prefix_nil] at isFront
        subst isFront
        exact isTooLong_eq_false_of_locate stands
    | @below base names last name _ leads reaches notes =>
        have passes := exists_reaches_iff.mp ⟨last, reaches⟩
        have isHere : last.here = base ++ names := reaches.here_eq
        have isPath : last.path = root.along names := reaches.path_eq
        cases notes with
        | file stands =>
            -- the root itself is the empty front, and is not among the directories entered
            refine ⟨names ++ [name], .below leads ?_ (isHere ▸ stands), ?_, ?_⟩
            · intro front isFront
              by_cases isEmpty : front = []
              · rw [isEmpty, List.append_nil]
                exact entryAt?_of_locate leads
              · exact (passes front isFront isEmpty).1
            · rw [enterable_concat]
              intro front isFront
              by_cases isEmpty : front = []
              · rw [isEmpty, Path.along_nil]
                exact isTooLong_eq_false_of_locate leads
              · exact (passes front isFront isEmpty).2
            · rw [Path.along_concat, isPath]
        | linkedFile follows => cases follows
  · rintro ⟨names, isFile, enterable, rfl⟩
    cases isFile with
    | root stands => exact .root stands
    | @below base ways name data leads passes stands =>
        rw [enterable_concat] at enterable
        have canReach : ∃ last, files.Reaches false (.start root base) ways last := by
          apply exists_reaches_iff.mpr
          intro front isFront notEmpty
          exact ⟨passes front isFront, enterable front isFront⟩
        rcases canReach with ⟨last, reaches⟩
        have isHere : last.here = base ++ ways := reaches.here_eq
        have isPath : last.path = root.along ways := reaches.path_eq
        rw [Path.along_concat, ← isPath]
        apply Meets.below leads reaches
        apply Notes.file
        rw [isHere]
        exact stands

/-! ## Walks that follow links -/

theorem openAt?_eq_none {opened : List OpenDirectory}
    (isUnopened : location ∉ opened.map OpenDirectory.location) :
    openAt? opened location = none := by
  simp_all [openAt?]

theorem Trail.ne_nil {opened : List Location} {here : Location}
    (trail : files.Trail opened path here names) : names ≠ [] := by
  cases trail <;> simp

/-- A walk gets to the end of every trail, if no directory on the way has a path that is too
long. -/
theorem Trail.mem_walkFrom {opened : List Location} {here : Location}
    (trail : files.Trail opened path here names) (enterable : path.Enterable names)
    (directories : List OpenDirectory) (areOpen : directories.map OpenDirectory.location = opened) :
    .file (path.along names) ∈ files.walkFrom true ⟨directories, path, here⟩ := by
  induction trail generalizing directories with
  | @file opened path here name data stands =>
      exact mem_walkFrom_iff.mpr ⟨name, .inl (.file stands)⟩
  | @linkedFile opened path target here location name data stands leads =>
      exact mem_walkFrom_iff.mpr ⟨name, .inl (.linkedFile rfl stands leads)⟩
  | @directory opened path here name rest stands isUnopened trail ih =>
      rcases enterable.of_cons trail.ne_nil with ⟨isShort, further⟩
      refine mem_walkFrom_iff.mpr ⟨name, .inr ⟨_, .directory stands isShort, ?_⟩⟩
      apply ih further
      rw [List.map_cons, areOpen]
  | @link opened path target here location name rest stands leads isUnopened trail ih =>
      rcases enterable.of_cons trail.ne_nil with ⟨isShort, further⟩
      have isNone : openAt? directories location = none := openAt?_eq_none (areOpen ▸ isUnopened)
      refine mem_walkFrom_iff.mpr ⟨name, .inr ⟨_, .link rfl stands leads isNone, ?_⟩⟩
      apply ih further
      rw [List.map_cons, areOpen]

theorem LinkedFile.mem_walkRoot (isFile : files.LinkedFile root names)
    (enterable : root.Enterable names) :
    .file (root.along names) ∈ files.walkRoot true root := by
  cases isFile with
  | root leads =>
      rw [walkRoot_of_file leads, if_pos (.inl rfl)]
      exact List.mem_singleton_self _
  | below leads trail =>
      rw [walkRoot_of_directory leads]
      exact trail.mem_walkFrom enterable _ rfl

end FileSystem

/-! ## Discoveries -/

/-- The fault of a finding that is none of a file. -/
def Finding.fault? : Finding → Option WalkFault
  | .file _ => none
  | .fault reason => some reason

namespace Discovery

variable {files : FileSystem} {followsLinks : Bool} {root path : Path} {findings : List Finding}
  {fault : WalkFault}

/-- A root costs one warning for every entry that is passed over for a fault, and no two of the
entries have the same path. -/
structure WarnsOfFaults (files : FileSystem) (followsLinks : Bool) (root : Path)
    (events : List Event) : Prop where
  warnings : ∀ event ∈ events, event.level = .warning
  faults : ∃ faults : List WalkFault, events = faults.map (.unreadable root) ∧
    (faults.map WalkFault.path).Nodup ∧
    ∀ fault, fault ∈ faults ↔ files.Meets followsLinks root (.fault fault)

/-- What is found below a root without links: the font files among its plain files, each once. -/
structure FindsPlainFonts (files : FileSystem) (root : Path) (found : List Path × List Event) :
    Prop where
  nodup : found.1.Nodup
  mem_iff : ∀ path, path ∈ found.1 ↔ path.isFont = true ∧
    ∃ names, files.PlainFile root names ∧ root.Enterable names ∧ path = root.along names
  warns : WarnsOfFaults files false root found.2

/-- What is found below a root with links: all the font files that the walk comes across, and among
them every one at the end of a trail. -/
structure FindsLinkedFonts (files : FileSystem) (root : Path) (found : List Path × List Event) :
    Prop where
  nodup : found.1.Nodup
  mem_iff : ∀ path, path ∈ found.1 ↔ path.isFont = true ∧ files.Meets true root (.file path)
  complete : ∀ names, files.LinkedFile root names → root.Enterable names →
    (root.along names).isFont = true → root.along names ∈ found.1
  warns : WarnsOfFaults files true root found.2

theorem font?_eq_some_iff {finding : Finding} :
    font? finding = some path ↔ finding = .file path ∧ path.isFont = true := by
  cases finding with
  | file own =>
      rw [font?, Option.ite_none_right_eq_some, Option.some.injEq, Finding.file.injEq]
      constructor
      · rintro ⟨isFont, rfl⟩
        exact ⟨rfl, isFont⟩
      · rintro ⟨rfl, isFont⟩
        exact ⟨isFont, rfl⟩
  | fault reason => simp [font?]

theorem fault?_eq_some_iff {finding : Finding} :
    finding.fault? = some fault ↔ finding = .fault fault := by
  cases finding <;> simp [Finding.fault?]

theorem mem_fonts_iff :
    path ∈ findings.filterMap font? ↔ path.isFont = true ∧ .file path ∈ findings := by
  simp only [List.mem_filterMap, font?_eq_some_iff]
  constructor
  · rintro ⟨finding, inside, rfl, isFont⟩
    exact ⟨isFont, inside⟩
  · rintro ⟨isFont, inside⟩
    exact ⟨_, inside, rfl, isFont⟩

theorem mem_faults_iff : fault ∈ findings.filterMap Finding.fault? ↔ .fault fault ∈ findings := by
  simp [List.mem_filterMap, fault?_eq_some_iff]

/-- What is chosen among findings by their paths has different paths if the findings have. -/
theorem nodup_filterMap {α : Type} {choose : Finding → Option α} {pathOf : α → Path}
    (keepsPath : ∀ finding chosen, choose finding = some chosen → pathOf chosen = finding.path)
    (distinct : (findings.map Finding.path).Nodup) :
    ((findings.filterMap choose).map pathOf).Nodup := by
  rw [List.Nodup, List.pairwise_map] at distinct ⊢
  apply List.Pairwise.filterMap _ _ distinct
  intro first second different chosen isChosen other isOther
  rw [keepsPath first chosen isChosen, keepsPath second other isOther]
  exact different

theorem nodup_fonts (distinct : (findings.map Finding.path).Nodup) :
    (findings.filterMap font?).Nodup := by
  have distinctFonts : ((findings.filterMap font?).map id).Nodup := by
    apply nodup_filterMap _ distinct
    intro finding chosen isChosen
    rw [(font?_eq_some_iff.mp isChosen).1]
    rfl
  rwa [List.map_id] at distinctFonts

theorem nodup_faults (distinct : (findings.map Finding.path).Nodup) :
    ((findings.filterMap Finding.fault?).map WalkFault.path).Nodup := by
  apply nodup_filterMap _ distinct
  intro finding chosen isChosen
  rw [fault?_eq_some_iff.mp isChosen]
  rfl

theorem events_eq_map_faults (root : Path) (findings : List Finding) :
    findings.filterMap (event? root) =
      (findings.filterMap Finding.fault?).map (.unreadable root) := by
  rw [List.map_filterMap]
  congr 1
  funext finding
  cases finding <;> rfl

theorem find_singleton : find ⟨[root], followsLinks⟩ files = findBelow files followsLinks root := by
  simp [find]

theorem findBelow_of_pathExists (isThere : files.pathExists root = true) :
    findBelow files followsLinks root = ((files.walkRoot followsLinks root).filterMap font?,
      (files.walkRoot followsLinks root).filterMap (event? root)) := by
  rw [findBelow, if_pos isThere]

theorem warnsOfFaults (named : files.Named) (isThere : files.pathExists root = true) :
    WarnsOfFaults files followsLinks root (findBelow files followsLinks root).2 := by
  rw [findBelow_of_pathExists isThere, events_eq_map_faults]
  constructor
  · intro event inside
    rcases List.mem_map.mp inside with ⟨fault, -, rfl⟩
    rfl
  · refine ⟨_, rfl, nodup_faults (FileSystem.nodup_paths_walkRoot named isThere), ?_⟩
    intro fault
    rw [mem_faults_iff, FileSystem.mem_walkRoot_iff isThere]

theorem findsPlainFonts (named : files.Named) (isThere : files.pathExists root = true) :
    FindsPlainFonts files root (findBelow files false root) where
  nodup := by
    rw [findBelow_of_pathExists isThere]
    exact nodup_fonts (FileSystem.nodup_paths_walkRoot named isThere)
  mem_iff := by
    intro path
    rw [findBelow_of_pathExists isThere, mem_fonts_iff, FileSystem.mem_walkRoot_iff isThere,
      FileSystem.meets_file_iff]
  warns := warnsOfFaults named isThere

theorem findsLinkedFonts (named : files.Named) (isThere : files.pathExists root = true) :
    FindsLinkedFonts files root (findBelow files true root) where
  nodup := by
    rw [findBelow_of_pathExists isThere]
    exact nodup_fonts (FileSystem.nodup_paths_walkRoot named isThere)
  mem_iff := by
    intro path
    rw [findBelow_of_pathExists isThere, mem_fonts_iff, FileSystem.mem_walkRoot_iff isThere]
  complete := by
    intro names isFile enterable isFont
    rw [findBelow_of_pathExists isThere, mem_fonts_iff]
    exact ⟨isFont, isFile.mem_walkRoot enterable⟩
  warns := warnsOfFaults named isThere

/-- A discovery finds root by root, and a root that does not exist costs one warning. Below a root
that exists it finds the plain fonts if links are not followed, and the linked fonts if they are.
No walk goes on for ever. -/
theorem find_fonts (named : files.Named) :
    (∀ discovery : Discovery, discovery.find files =
      (discovery.roots.flatMap fun root => (find ⟨[root], discovery.followsLinks⟩ files).1,
        discovery.roots.flatMap fun root => (find ⟨[root], discovery.followsLinks⟩ files).2)) ∧
    (∀ root followsLinks, files.pathExists root = false →
      find ⟨[root], followsLinks⟩ files = ([], [.missingRoot root]) ∧
        (Event.missingRoot root).level = .warning) ∧
    (∀ root, files.pathExists root = true →
      FindsPlainFonts files root (find ⟨[root], false⟩ files) ∧
        FindsLinkedFonts files root (find ⟨[root], true⟩ files)) ∧
    ∀ followsLinks, WellFounded fun next position =>
      ∃ name, files.Enters followsLinks position name next := by
  refine ⟨?_, ?_, ?_, files.wellFounded_enters⟩
  · intro discovery
    simp only [find_singleton]
    rw [find, List.flatMap_map, List.flatMap_map]
  · intro root followsLinks isMissing
    rw [find_singleton, findBelow, if_neg (by simp [isMissing])]
    exact ⟨rfl, rfl⟩
  · intro root isThere
    rw [find_singleton, find_singleton]
    exact ⟨findsPlainFonts named isThere, findsLinkedFonts named isThere⟩

end Discovery

theorem forall_prefix_singleton {α : Type} {element : α} {Good : List α → Prop} :
    (∀ front, front <+: [element] → Good front) ↔ Good [] ∧ Good [element] := by
  constructor
  · intro isGood
    exact ⟨isGood [] (by simp), isGood [element] (by simp)⟩
  · rintro ⟨isGood, isGoodAtEnd⟩ front isFront
    rcases List.prefix_cons_iff.mp isFront with rfl | ⟨rest, rfl, isRest⟩
    · exact isGood
    · rw [List.prefix_nil.mp isRest]
      exact isGoodAtEnd

namespace Specimen

/-- The directory that is searched. -/
def outerName : Bytes := [0x72]

/-- A directory in it. -/
def innerName : Bytes := [0x64]

/-- A font file in the inner directory. -/
def fontName : Bytes := [0x61, 0x2E, 0x74, 0x74, 0x66]

/-- A font file in a directory of a directory. -/
def nested : FileSystem :=
  (((FileSystem.withDirectory [0x77]).put [[0x77], outerName] .directory).put
    [[0x77], outerName, innerName] .directory).put
      [[0x77], outerName, innerName, fontName] (.file [])

/-- A link with the name of a font file. -/
def linkName : Bytes := [0x62, 0x2E, 0x74, 0x74, 0x66]

/-- A link from the inner directory to the outer one. -/
def upName : Bytes := [0x75, 0x70]

/-- The nested directories, with a link to the font file in the outer one and a link back in the
inner one. -/
def linked : FileSystem :=
  (nested.put [[0x77], outerName, linkName] (.link ((Path.mk innerName).join ⟨fontName⟩))).put
    [[0x77], outerName, innerName, upName] (.link ⟨[Path.dot, Path.dot]⟩)

/-- The outer directory as it is asked for. -/
def outerRoot : Path := ⟨outerName⟩

/-- The walk at its start. -/
def outer : WalkPosition :=
  .start outerRoot [[0x77], outerName]

/-- The walk in the inner directory. -/
def inner : WalkPosition :=
  outer.enter innerName [[0x77], outerName, innerName]

theorem named_linked : linked.Named := by
  unfold linked nested
  repeat' apply FileSystem.Named.put
  · exact FileSystem.named_withDirectory (by decide)
  all_goals
    unfold Location.Spelled
    decide

theorem locate_outerRoot :
    linked.locate .follow outerRoot = .ok ([[0x77], outerName], .directory) := by
  have leads : FileSystem.LeadsAlong outerRoot [outerName] := by decide +kernel
  apply FileSystem.locate_eq_ok_of_follow leads
  rw [FileSystem.follow_directory (by decide) rfl]
  exact FileSystem.follow_nil rfl

theorem locate_linkName : linked.locate .follow (outerRoot.join ⟨linkName⟩) =
    .ok ([[0x77], outerName, innerName, fontName], .file []) := by
  have leads : FileSystem.LeadsAlong (outerRoot.join ⟨linkName⟩) [outerName, linkName] := by
    decide +kernel
  have isSteps : ((Path.mk innerName).join ⟨fontName⟩).steps = [innerName, fontName] := by
    decide +kernel
  apply FileSystem.locate_eq_ok_of_follow leads
  rw [FileSystem.follow_directory (by decide) rfl, FileSystem.linkLimit,
    FileSystem.follow_link (by decide) rfl rfl, isSteps, List.append_nil,
    FileSystem.follow_directory (by decide) rfl]
  exact FileSystem.follow_file (by decide) rfl

theorem locate_upName : linked.locate .follow (outerRoot.along [innerName, upName]) =
    .ok ([[0x77], outerName], .directory) := by
  have leads : FileSystem.LeadsAlong (outerRoot.along [innerName, upName])
      [outerName, innerName, upName] := by
    decide +kernel
  have isSteps : (Path.mk [Path.dot, Path.dot]).steps = [[Path.dot, Path.dot]] := by
    decide +kernel
  apply FileSystem.locate_eq_ok_of_follow leads
  rw [FileSystem.follow_directory (by decide) rfl, FileSystem.follow_directory (by decide) rfl,
    FileSystem.linkLimit, FileSystem.follow_link (by decide) rfl rfl, isSteps, List.append_nil,
    FileSystem.follow_parent]
  exact FileSystem.follow_nil rfl

end Specimen

/-- Without links the font file is found below the outer directory, with links also under the name
of the link to it, and the link back is reported. -/
theorem Discovery.find_fonts_specimen :
    Specimen.linked.Named ∧ Specimen.linked.pathExists Specimen.outerRoot = true ∧
    Specimen.outerRoot.along [Specimen.innerName, Specimen.fontName] ∈
      (find ⟨[Specimen.outerRoot], false⟩ Specimen.linked).1 ∧
    Specimen.outerRoot.along [Specimen.linkName] ∈
      (find ⟨[Specimen.outerRoot], true⟩ Specimen.linked).1 ∧
    .unreadable Specimen.outerRoot
        (.loop (Specimen.outerRoot.along [Specimen.innerName, Specimen.upName])
          Specimen.outerRoot) ∈
      (find ⟨[Specimen.outerRoot], true⟩ Specimen.linked).2 := by
  have leads := Specimen.locate_outerRoot
  have isThere : Specimen.linked.pathExists Specimen.outerRoot = true :=
    FileSystem.pathExists_eq_true_iff.mpr ⟨_, leads⟩
  rcases find_fonts Specimen.named_linked with ⟨-, -, found, -⟩
  rcases found Specimen.outerRoot isThere with ⟨withoutLinks, withLinks⟩
  refine ⟨Specimen.named_linked, isThere, ?_, ?_, ?_⟩
  · refine (withoutLinks.mem_iff _).mpr ⟨by decide +kernel, [_] ++ [_], ?_, ?_, rfl⟩
    · exact .below leads (forall_prefix_singleton.mpr ⟨rfl, rfl⟩) rfl
    · rw [FileSystem.enterable_concat, forall_prefix_singleton]
      decide
  · have trail : Specimen.linked.Trail [[[0x77], Specimen.outerName]] Specimen.outerRoot
        [[0x77], Specimen.outerName] [Specimen.linkName] :=
      .linkedFile rfl Specimen.locate_linkName
    refine withLinks.complete _ (.below leads trail) ?_ (by decide +kernel)
    intro front isFront
    rw [List.prefix_nil.mp isFront]
    decide
  · rcases withLinks.warns.faults with ⟨faults, isEvents, -, mem_iff⟩
    rw [isEvents]
    apply List.mem_map_of_mem
    rw [mem_iff]
    have enters : Specimen.linked.Enters true Specimen.outer Specimen.innerName Specimen.inner :=
      .directory rfl (by decide)
    have loops : Specimen.linked.Notes true Specimen.inner Specimen.upName
        (.fault (.loop (Specimen.inner.path.join ⟨Specimen.upName⟩)
          (OpenDirectory.path ⟨[[0x77], Specimen.outerName], Specimen.outerRoot⟩))) :=
      .loop rfl rfl Specimen.locate_upName rfl
    exact .below leads (.step enters (.here _)) loops

/-! ## Directories that are not entered -/

/-- A path with dots in front of it, each before a slash. -/
def Path.dotted (count : Nat) (path : Path) : Path :=
  ⟨(List.replicate count [dot, slash]).flatten ++ path.spelling⟩

theorem Path.length_dotted (count : Nat) (path : Path) :
    (path.dotted count).spelling.length = 2 * count + path.spelling.length := by
  simp [dotted, Nat.mul_comm]

theorem Path.names_dotted (count : Nat) (path : Path) :
    (path.dotted count).names = List.replicate count [dot] ++ path.names := by
  induction count with
  | zero => rfl
  | succ count ih =>
      rw [List.replicate_succ, List.cons_append, ← ih]
      exact names_dot_slash _

theorem Path.steps_dotted (count : Nat) {path : Path} (notEmpty : path.spelling ≠ []) :
    (path.dotted count).steps = List.replicate count [dot] ++ path.steps := by
  have sameLast : (path.dotted count).spelling.getLast? = path.spelling.getLast? :=
    List.getLast?_append_of_ne_nil _ notEmpty
  rw [steps, steps, sameLast, names_dotted]
  split
  · rw [List.append_assoc]
  · rfl

namespace FileSystem

theorem follow_dots (files : FileSystem) (policy : LinkPolicy) (links count : Nat)
    (here : Location) (names : List Bytes) :
    files.follow policy links here (List.replicate count [Path.dot] ++ names) =
      files.follow policy links here names := by
  induction count with
  | zero => rfl
  | succ count ih => rw [List.replicate_succ, List.cons_append, follow, if_pos rfl, ih]

/-- Dots in front of a relative path do not change where it leads, if they do not make it too
long. -/
theorem locate_dotted {files : FileSystem} {policy : LinkPolicy} {path : Path}
    {location : Location} {entry : Entry} (count : Nat) (isRelative : path.isAbsolute = false)
    (isShort : (path.dotted count).isTooLong = false)
    (located : files.locate policy path = .ok (location, entry)) :
    files.locate policy (path.dotted count) = .ok (location, entry) := by
  rw [locate_eq_ok_iff, resolve_eq_ok_iff] at located ⊢
  rcases located with ⟨⟨notEmpty, noZero, -⟩, reached⟩
  have dottedRelative : (path.dotted count).isAbsolute = false := by
    cases count with
    | zero => exact isRelative
    | succ count => rfl
  refine ⟨⟨?_, ?_, isShort⟩, ?_⟩
  · simp [Path.dotted, notEmpty]
  · have notInside : 0 ∉ path.spelling := by simpa using noZero
    simp [Path.dotted, Path.dot, Path.slash, notInside]
  · rw [Path.steps_dotted count notEmpty, follow_dots, dottedRelative]
    rwa [isRelative] at reached

end FileSystem

namespace Specimen

/-- The outer directory, spelled with as many dots as a path has room for. -/
def longRoot : Path :=
  (Path.mk outerName).dotted 2047

theorem length_longRoot : longRoot.spelling.length = 4095 :=
  Path.length_dotted 2047 ⟨outerName⟩

theorem locate_longRoot (policy : LinkPolicy) :
    nested.locate policy longRoot = .ok ([[0x77], outerName], .directory) := by
  apply FileSystem.locate_dotted 2047
  · rfl
  · change decide (4096 ≤ longRoot.spelling.length) = false
    rw [length_longRoot]
    rfl
  · have leads : FileSystem.LeadsAlong ⟨outerName⟩ [outerName] := by decide +kernel
    apply FileSystem.locate_eq_ok_of_follow leads
    rw [FileSystem.follow_directory (by decide) rfl]
    exact FileSystem.follow_nil rfl

theorem isTooLong_below_longRoot : (longRoot.join ⟨innerName⟩).isTooLong = true := by
  have isName : Path.IsName innerName := by decide
  have grows : longRoot.spelling.length + innerName.length ≤
      (longRoot.join ⟨innerName⟩).spelling.length :=
    Path.length_le_length_join isName
  rw [length_longRoot] at grows
  exact decide_eq_true grows

theorem children_outer : nested.children [[0x77], outerName] = [(innerName, .directory)] := by
  decide

end Specimen

/-- The directory in the outer one is not entered under a path that is too long, and so the font
file in it is not found. -/
theorem Discovery.find_below_longRoot :
    Specimen.nested.pathExists Specimen.longRoot = true ∧
    Specimen.nested.PlainFile Specimen.longRoot [Specimen.innerName, Specimen.fontName] ∧
    (Specimen.longRoot.along [Specimen.innerName, Specimen.fontName]).isFont = true ∧
    find ⟨[Specimen.longRoot], false⟩ Specimen.nested =
      ([], [.unreadable Specimen.longRoot
        (.access (Specimen.longRoot.join ⟨Specimen.innerName⟩) .nameTooLong)]) := by
  have leads := Specimen.locate_longRoot .follow
  have isThere : Specimen.nested.pathExists Specimen.longRoot = true :=
    FileSystem.pathExists_eq_true_iff.mpr ⟨_, leads⟩
  refine ⟨isThere, ?_, ?_, ?_⟩
  · have isBelow : Specimen.nested.PlainFile Specimen.longRoot
        ([Specimen.innerName] ++ [Specimen.fontName]) :=
      .below leads (forall_prefix_singleton.mpr ⟨rfl, rfl⟩) rfl
    exact isBelow
  · have sameKind : ∀ path : Path, (path.join ⟨Specimen.fontName⟩).classify =
        (Path.mk Specimen.fontName).classify :=
      fun path => Path.classify_join (by decide) (by decide) (by decide)
    simp only [Path.isFont, Path.along_cons, Path.along_nil, sameKind]
    decide +kernel
  · rw [find_singleton, findBelow_of_pathExists isThere, FileSystem.walkRoot_of_directory leads,
      FileSystem.walkFrom_eq_flatMap]
    have isChildren := Specimen.children_outer
    simp only [WalkPosition.start, isChildren, List.flatMap_singleton, FileSystem.visit,
      Specimen.isTooLong_below_longRoot]
    rfl

end FontCatalog
