import FontCatalog.Discovery.Walk
import FontCatalog.Proofs.NamedEntries
import Mathlib.Data.List.Nodup
import Mathlib.Tactic.Conv

/-!
# Steps of a walk

At every name of a directory a walk does one of three things: it passes over the entry, it notes
one finding, or it enters a directory. What it finds altogether is what it notes at the positions
that it reaches by entering one directory after another.

The paths of the findings are all different, for each is spelled by the names on the way to it.
-/

namespace FontCatalog

/-- The path that was passed over. -/
def WalkFault.path : WalkFault → Path
  | .access path _ => path
  | .loop path _ => path

/-- The path of what a walk came across. -/
def Finding.path : Finding → Path
  | .file path => path
  | .fault reason => reason.path

/-- Where a walk is: the directories that are open, and the path and the location of the one whose
entries it goes through. -/
structure WalkPosition where
  opened : List OpenDirectory
  path : Path
  here : Location

/-- The position in a directory that was entered under a name. -/
def WalkPosition.enter (position : WalkPosition) (name : Bytes) (location : Location) :
    WalkPosition where
  opened := ⟨location, position.path.join ⟨name⟩⟩ :: position.opened
  path := position.path.join ⟨name⟩
  here := location

namespace FileSystem

variable {files : FileSystem} {followsLinks : Bool} {position next last : WalkPosition}
  {name : Bytes} {names : List Bytes} {entry : Entry} {finding : Finding}

/-- The walk enters a directory under a name: a directory that stands there, or one that a link
leads to and that is not open yet. -/
inductive Enters (files : FileSystem) (followsLinks : Bool) (position : WalkPosition)
    (name : Bytes) : WalkPosition → Prop
  | directory (stands : files.entryAt? (position.here ++ [name]) = some .directory)
      (isShort : (position.path.join ⟨name⟩).isTooLong = false) :
      Enters files followsLinks position name (position.enter name (position.here ++ [name]))
  | link {target : Path} {location : Location} (follows : followsLinks = true)
      (stands : files.entryAt? (position.here ++ [name]) = some (.link target))
      (leads : files.locate .follow (position.path.join ⟨name⟩) = .ok (location, .directory))
      (isUnopened : openAt? position.opened location = none) :
      Enters files followsLinks position name (position.enter name location)

/-- What the walk notes under a name: a file, or why the entry is passed over. -/
inductive Notes (files : FileSystem) (followsLinks : Bool) (position : WalkPosition)
    (name : Bytes) : Finding → Prop
  | file {data : Bytes} (stands : files.entryAt? (position.here ++ [name]) = some (.file data)) :
      Notes files followsLinks position name (.file (position.path.join ⟨name⟩))
  | tooLong (stands : files.entryAt? (position.here ++ [name]) = some .directory)
      (isTooLong : (position.path.join ⟨name⟩).isTooLong = true) :
      Notes files followsLinks position name
        (.fault (.access (position.path.join ⟨name⟩) .nameTooLong))
  | linkedFile {target : Path} {location : Location} {data : Bytes} (follows : followsLinks = true)
      (stands : files.entryAt? (position.here ++ [name]) = some (.link target))
      (leads : files.locate .follow (position.path.join ⟨name⟩) = .ok (location, .file data)) :
      Notes files followsLinks position name (.file (position.path.join ⟨name⟩))
  | dangling {target : Path} {fault : FileFault} (follows : followsLinks = true)
      (stands : files.entryAt? (position.here ++ [name]) = some (.link target))
      (leads : files.locate .follow (position.path.join ⟨name⟩) = .error fault) :
      Notes files followsLinks position name
        (.fault (.access (position.path.join ⟨name⟩) fault))
  | loop {target : Path} {location : Location} {ancestor : OpenDirectory}
      (follows : followsLinks = true)
      (stands : files.entryAt? (position.here ++ [name]) = some (.link target))
      (leads : files.locate .follow (position.path.join ⟨name⟩) = .ok (location, .directory))
      (isOpen : openAt? position.opened location = some ancestor) :
      Notes files followsLinks position name
        (.fault (.loop (position.path.join ⟨name⟩) ancestor.path))

/-- The walk reaches a position by entering directories under names, one after another. -/
inductive Reaches (files : FileSystem) (followsLinks : Bool) :
    WalkPosition → List Bytes → WalkPosition → Prop
  | here (position : WalkPosition) : Reaches files followsLinks position [] position
  | step {position next last : WalkPosition} {name : Bytes} {rest : List Bytes}
      (enters : files.Enters followsLinks position name next)
      (reaches : Reaches files followsLinks next rest last) :
      Reaches files followsLinks position (name :: rest) last

/-- What a walk finds from a position on. -/
def walkFrom (files : FileSystem) (followsLinks : Bool) (position : WalkPosition) : List Finding :=
  files.walk followsLinks position.opened position.path position.here

/-- What a walk finds at an entry and below it. -/
def visit (files : FileSystem) (followsLinks : Bool) (position : WalkPosition) (name : Bytes)
    (entry : Entry) : List Finding :=
  let childPath := position.path.join ⟨name⟩
  match entry with
  | .file _ => [.file childPath]
  | .directory =>
      if childPath.isTooLong then [.fault (.access childPath .nameTooLong)]
      else files.walkFrom followsLinks (position.enter name (position.here ++ [name]))
  | .link _ =>
      if followsLinks then
        match files.locate .follow childPath with
        | .error fault => [.fault (.access childPath fault)]
        | .ok (target, .directory) =>
            match openAt? position.opened target with
            | some ancestor => [.fault (.loop childPath ancestor.path)]
            | none => files.walkFrom followsLinks (position.enter name target)
        | .ok _ => [.file childPath]
      else []

/-! ## Where paths lead -/

theorem follow_ne_link {links : Nat} {here location : Location} {target : Path} :
    files.follow .follow links here names ≠ .ok (.found location (.link target)) := by
  intro reached
  fun_induction files.follow .follow links here names <;> simp_all

/-- A path that is followed to its end does not end at a link. -/
theorem locate_follow_ne_link {path target : Path} {location : Location} :
    files.locate .follow path ≠ .ok (location, .link target) := by
  rw [Ne, locate_eq_ok_iff, resolve_eq_ok_iff]
  exact fun located => follow_ne_link located.2

/-- Where a path ends that is followed to its end, it ends as well if a link at its end is kept,
unless there is one. -/
theorem follow_keep_of_follow {links : Nat} {here : Location} {destination : Destination}
    (reached : files.follow .follow links here names = .ok destination) :
    files.follow .keep links here names = .ok destination ∨
      ∃ location target, files.follow .keep links here names =
        .ok (.found location (.link target)) := by
  fun_induction files.follow .follow links here names with
  | case1 links here isDirectory => simp_all [follow]
  | case3 links here rest ih =>
      rw [follow]
      simpa using ih reached
  | case4 links here rest notDot ih =>
      rw [follow]
      simpa using ih reached
  | case6 links here name notDot notParent notLong isFree => simp_all [follow]
  | case8 links here name rest notDot notParent notLong isDirectory ih =>
      rw [follow]
      simpa [notDot, notParent, notLong, isDirectory] using ih reached
  | case9 links here name notDot notParent notLong data isFile => simp_all [follow]
  | case13 here name rest notDot notParent notLong target isLink notKept links base ih =>
      rw [follow]
      by_cases isEnd : rest = []
      · right
        exact ⟨here ++ [name], target, by simp [notDot, notParent, notLong, isLink, isEnd]⟩
      · simpa [notDot, notParent, notLong, isLink, isEnd, base] using ih reached
  | case2 | case5 | case7 | case10 | case12 => cases reached
  | case11 links here name rest notDot notParent notLong target isLink kept => cases kept.2

theorem locate_keep_of_follow {path : Path} {location : Location}
    (located : files.locate .follow path = .ok (location, entry)) :
    files.locate .keep path = .ok (location, entry) ∨
      ∃ place target, files.locate .keep path = .ok (place, .link target) := by
  simp only [locate_eq_ok_iff, resolve_eq_ok_iff] at located ⊢
  rcases follow_keep_of_follow located.2 with same | ⟨place, target, isLink⟩
  · exact .inl ⟨located.1, same⟩
  · exact .inr ⟨place, target, located.1, isLink⟩

/-! ## One step -/

theorem walkFrom_eq_flatMap (files : FileSystem) (followsLinks : Bool) (position : WalkPosition) :
    files.walkFrom followsLinks position = (files.children position.here).flatMap fun child =>
      files.visit followsLinks position child.1 child.2 := by
  calc files.walkFrom followsLinks position
      = (files.children position.here).attach.flatMap fun child =>
          files.visit followsLinks position child.1.1 child.1.2 := by
        rw [walkFrom, walk]
        congr 1
        funext ⟨⟨name, entry⟩, inside⟩
        cases entry with
        | file data => rfl
        | directory => rfl
        | link target =>
            simp only [visit]
            split
            · split
              · simp [*]
              · split
                · simp [*]
                · simp [*]
                  rfl
              · simp [*]
            · rfl
    _ = _ := by
        conv_rhs => rw [← List.attach_map_subtype_val (files.children position.here)]
        rw [List.flatMap_map]

theorem visit_of_notes (notes : files.Notes followsLinks position name finding)
    (stands : files.entryAt? (position.here ++ [name]) = some entry) :
    files.visit followsLinks position name entry = [finding] := by
  cases notes with
  | file isFile =>
      cases stands.symm.trans isFile
      rfl
  | tooLong isDirectory isTooLong =>
      cases stands.symm.trans isDirectory
      simp [visit, isTooLong]
  | linkedFile follows isLink leads | dangling follows isLink leads =>
      cases stands.symm.trans isLink
      simp [visit, follows, leads]
  | loop follows isLink leads isOpen =>
      cases stands.symm.trans isLink
      simp [visit, follows, leads, isOpen]

theorem visit_of_enters (enters : files.Enters followsLinks position name next)
    (stands : files.entryAt? (position.here ++ [name]) = some entry) :
    files.visit followsLinks position name entry = files.walkFrom followsLinks next := by
  cases enters with
  | directory isDirectory isShort =>
      cases stands.symm.trans isDirectory
      simp [visit, isShort]
  | link follows isLink leads isUnopened =>
      cases stands.symm.trans isLink
      simp [visit, follows, leads, isUnopened]

theorem visit_cases (followsLinks : Bool)
    (stands : files.entryAt? (position.here ++ [name]) = some entry) :
    files.visit followsLinks position name entry = [] ∨
      (∃ finding, files.Notes followsLinks position name finding) ∨
      ∃ next, files.Enters followsLinks position name next := by
  cases entry with
  | file data => exact .inr (.inl ⟨_, .file stands⟩)
  | directory =>
      cases isTooLong : (position.path.join ⟨name⟩).isTooLong with
      | true => exact .inr (.inl ⟨_, .tooLong stands isTooLong⟩)
      | false => exact .inr (.inr ⟨_, .directory stands isTooLong⟩)
  | link target =>
      cases followsLinks with
      | false => exact .inl rfl
      | true =>
          cases leads : files.locate .follow (position.path.join ⟨name⟩) with
          | error fault => exact .inr (.inl ⟨_, .dangling rfl stands leads⟩)
          | ok place =>
              rcases place with ⟨location, _ | _ | _⟩
              · exact .inr (.inl ⟨_, .linkedFile rfl stands leads⟩)
              · cases isOpen : openAt? position.opened location with
                | some ancestor => exact .inr (.inl ⟨_, .loop rfl stands leads isOpen⟩)
                | none => exact .inr (.inr ⟨_, .link rfl stands leads isOpen⟩)
              · exact absurd leads locate_follow_ne_link

theorem mem_visit_iff (stands : files.entryAt? (position.here ++ [name]) = some entry) :
    finding ∈ files.visit followsLinks position name entry ↔
      files.Notes followsLinks position name finding ∨
        ∃ next, files.Enters followsLinks position name next ∧
          finding ∈ files.walkFrom followsLinks next := by
  constructor
  · intro inside
    rcases visit_cases followsLinks stands with passed | ⟨noted, notes⟩ | ⟨next, enters⟩
    · rw [passed] at inside
      cases inside
    · rw [visit_of_notes notes stands, List.mem_singleton] at inside
      exact .inl (inside ▸ notes)
    · rw [visit_of_enters enters stands] at inside
      exact .inr ⟨next, enters, inside⟩
  · rintro (notes | ⟨next, enters, inside⟩)
    · rw [visit_of_notes notes stands]
      exact List.mem_singleton_self finding
    · rw [visit_of_enters enters stands]
      exact inside

theorem Notes.exists_entry (notes : files.Notes followsLinks position name finding) :
    ∃ entry, files.entryAt? (position.here ++ [name]) = some entry := by
  cases notes <;> exact ⟨_, by assumption⟩

theorem Enters.exists_entry (enters : files.Enters followsLinks position name next) :
    ∃ entry, files.entryAt? (position.here ++ [name]) = some entry := by
  cases enters <;> exact ⟨_, by assumption⟩

/-- What a walk finds from a position on is what it notes there, and what it finds from the
positions on that it enters. -/
theorem mem_walkFrom_iff : finding ∈ files.walkFrom followsLinks position ↔
    ∃ name, files.Notes followsLinks position name finding ∨
      ∃ next, files.Enters followsLinks position name next ∧
        finding ∈ files.walkFrom followsLinks next := by
  rw [walkFrom_eq_flatMap, List.mem_flatMap]
  constructor
  · rintro ⟨⟨name, entry⟩, isChild, inside⟩
    exact ⟨name, (mem_visit_iff (mem_children_iff.mp isChild)).mp inside⟩
  · rintro ⟨name, notes | ⟨next, enters, inside⟩⟩
    · rcases notes.exists_entry with ⟨entry, stands⟩
      exact ⟨(name, entry), mem_children_iff.mpr stands, (mem_visit_iff stands).mpr (.inl notes)⟩
    · rcases enters.exists_entry with ⟨entry, stands⟩
      exact ⟨(name, entry), mem_children_iff.mpr stands,
        (mem_visit_iff stands).mpr (.inr ⟨next, enters, inside⟩)⟩

/-! ## The end of a walk -/

/-- A walk ends, because every directory that it enters is deeper than the one before, unless it is
one that was not open. -/
theorem wellFounded_enters (files : FileSystem) (followsLinks : Bool) :
    WellFounded fun next position => ∃ name, files.Enters followsLinks position name next := by
  apply Subrelation.wf _ (InvImage.wf
    (fun position : WalkPosition =>
      (files.unopened position.opened, files.depth - position.here.length))
    (Prod.lex Nat.lt_wfRel Nat.lt_wfRel).wf)
  rintro next position ⟨name, enters⟩
  cases enters with
  | directory stands isShort =>
      have deeper := length_le_depth ((entryAt?_eq_some_iff (by simp)).mp stands)
      rw [List.length_append, List.length_singleton] at deeper
      have fewer := files.unopened_cons_le
        ⟨position.here ++ [name], position.path.join ⟨name⟩⟩ position.opened
      rcases Nat.lt_or_eq_of_le fewer with less | same
      · exact Prod.Lex.left _ _ less
      · simp only [InvImage, WalkPosition.enter, same]
        apply Prod.Lex.right
        change files.depth - (position.here ++ [name]).length < files.depth - position.here.length
        rw [List.length_append, List.length_singleton]
        omega
  | link follows stands leads isUnopened =>
      apply Prod.Lex.left
      apply unopened_cons_lt
      · exact mem_directories_of_entryAt? (entryAt?_of_locate leads)
      · rw [isUnopened]
        rfl

/-! ## Runs -/

/-- What a walk finds is what it notes at the positions that it reaches. -/
theorem mem_walkFrom_iff_exists_reaches : finding ∈ files.walkFrom followsLinks position ↔
    ∃ names last name, files.Reaches followsLinks position names last ∧
      files.Notes followsLinks last name finding := by
  constructor
  · intro inside
    induction position using (files.wellFounded_enters followsLinks).induction with
    | h position ih =>
      rcases mem_walkFrom_iff.mp inside with ⟨name, notes | ⟨next, enters, later⟩⟩
      · exact ⟨[], position, name, .here position, notes⟩
      · rcases ih next ⟨name, enters⟩ later with ⟨names, last, lastName, reaches, notes⟩
        exact ⟨name :: names, last, lastName, .step enters reaches, notes⟩
  · rintro ⟨names, last, name, reaches, notes⟩
    induction reaches with
    | here position => exact mem_walkFrom_iff.mpr ⟨name, .inl notes⟩
    | @step position next last stepName rest enters reaches ih =>
        exact mem_walkFrom_iff.mpr ⟨stepName, .inr ⟨next, enters, ih notes⟩⟩

/-! ## Paths of findings -/

theorem Enters.path_eq (enters : files.Enters followsLinks position name next) :
    next.path = position.path.join ⟨name⟩ := by
  cases enters <;> rfl

theorem Notes.path_eq (notes : files.Notes followsLinks position name finding) :
    finding.path = position.path.join ⟨name⟩ := by
  cases notes <;> rfl

theorem Reaches.path_eq (reaches : files.Reaches followsLinks position names last) :
    last.path = position.path.along names := by
  induction reaches with
  | here position => rfl
  | step enters reaches ih => rw [ih, enters.path_eq, Path.along_cons]

theorem Reaches.isName (named : files.Named)
    (reaches : files.Reaches followsLinks position names last) :
    ∀ name ∈ names, Path.IsName name := by
  induction reaches with
  | here position => simp
  | step enters reaches ih =>
      rw [List.forall_mem_cons]
      rcases enters.exists_entry with ⟨entry, stands⟩
      exact ⟨named.isName_of_entryAt? stands, ih⟩

/-- The path of a finding is spelled by the names on the way to it. -/
theorem exists_path_eq_along (named : files.Named)
    (inside : finding ∈ files.walkFrom followsLinks position) :
    ∃ names, (∀ name ∈ names, Path.IsName name) ∧ finding.path = position.path.along names := by
  rcases mem_walkFrom_iff_exists_reaches.mp inside with ⟨names, last, name, reaches, notes⟩
  rcases notes.exists_entry with ⟨entry, stands⟩
  refine ⟨names ++ [name], ?_, ?_⟩
  · rw [List.forall_mem_append, List.forall_mem_singleton]
    exact ⟨reaches.isName named, named.isName_of_entryAt? stands⟩
  · rw [notes.path_eq, reaches.path_eq, Path.along_concat]

theorem exists_path_eq_along_of_mem_visit (named : files.Named)
    (stands : files.entryAt? (position.here ++ [name]) = some entry)
    (inside : finding ∈ files.visit followsLinks position name entry) :
    ∃ rest, (∀ name ∈ rest, Path.IsName name) ∧
      finding.path = position.path.along (name :: rest) := by
  rcases (mem_visit_iff stands).mp inside with notes | ⟨next, enters, later⟩
  · exact ⟨[], by simp, notes.path_eq⟩
  · rcases exists_path_eq_along named later with ⟨rest, areNames, isPath⟩
    refine ⟨rest, areNames, ?_⟩
    rw [isPath, enters.path_eq, Path.along_cons]

/-- No path is found twice. -/
theorem nodup_paths_walkFrom (named : files.Named) (followsLinks : Bool) (position : WalkPosition) :
    ((files.walkFrom followsLinks position).map Finding.path).Nodup := by
  induction position using (files.wellFounded_enters followsLinks).induction with
  | h position ih =>
    rw [walkFrom_eq_flatMap, List.map_flatMap, List.nodup_flatMap]
    constructor
    · rintro ⟨name, entry⟩ isChild
      have stands := mem_children_iff.mp isChild
      rcases visit_cases followsLinks stands with passed | ⟨noted, notes⟩ | ⟨next, enters⟩
      · simp [passed]
      · simp [visit_of_notes notes stands]
      · simp only [visit_of_enters enters stands]
        exact ih next ⟨name, enters⟩
    · -- what is found below two names differs, since the names can be read back off the paths
      have distinct := files.nodup_names_children position.here
      rw [List.Nodup, List.pairwise_map] at distinct
      apply List.Pairwise.imp_of_mem _ distinct
      rintro ⟨name, entry⟩ ⟨other, otherEntry⟩ isChild isOther different path inLeft inRight
      rcases List.mem_map.mp inLeft with ⟨left, leftInside, rfl⟩
      rcases List.mem_map.mp inRight with ⟨right, rightInside, samePath⟩
      have stands := mem_children_iff.mp isChild
      have otherStands := mem_children_iff.mp isOther
      rcases exists_path_eq_along_of_mem_visit named stands leftInside with
        ⟨rest, areNames, isPath⟩
      rcases exists_path_eq_along_of_mem_visit named otherStands rightInside with
        ⟨others, areOthers, isOtherPath⟩
      have sameNames : name :: rest = other :: others := by
        apply Path.along_injective
        · exact List.forall_mem_cons.mpr ⟨named.isName_of_entryAt? stands, areNames⟩
        · exact List.forall_mem_cons.mpr ⟨named.isName_of_entryAt? otherStands, areOthers⟩
        · rw [← isPath, ← isOtherPath, samePath]
      cases sameNames
      exact different rfl

end FileSystem

end FontCatalog
