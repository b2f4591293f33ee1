import FontCatalog.Proofs.Pieces
import FontCatalog.Record

/-!
# Spellings of one path

Two spellings name the same path when they have the same components. What is between two slashes is
a name of its own, so a path can be taken apart at any slash; a second slash, or a dot between two
slashes, adds no component. Only a dot in front of everything else counts.
-/

namespace FontCatalog

namespace Path

variable {left right : Bytes} {path : Path}

theorem names_append_slash (left right : Bytes) :
    names ⟨left ++ slash :: right⟩ = names ⟨left⟩ ++ names ⟨right⟩ := by
  simp [names, pieces_append_cons (· == slash) (beq_self_eq_true slash)]

theorem names_slash (right : Bytes) : names ⟨slash :: right⟩ = names ⟨right⟩ :=
  names_append_slash [] right

theorem names_dot_slash (right : Bytes) :
    names ⟨dot :: slash :: right⟩ = [dot] :: names ⟨right⟩ :=
  names_append_slash [dot] right

theorem exists_names_eq_cons {byte : UInt8} (notSlash : byte ≠ slash) (rest : Bytes) :
    ∃ first others, names ⟨byte :: rest⟩ = first :: others := by
  rcases exists_pieces_eq_cons (· == slash) rest with ⟨first, others, isPieces⟩
  refine ⟨byte :: first, others.filter (· ≠ []), ?_⟩
  simp [names, pieces, notSlash, isPieces]

/-- The components that the names of a path stand for, wherever they stand. -/
def innerComponents (path : Path) : List Component :=
  path.names.filterMap componentOf?

theorem components_eq (path : Path) :
    path.components = if path.isAbsolute then .root :: path.innerComponents
      else if path.names.head? = some [dot] then .current :: path.innerComponents
      else path.innerComponents :=
  rfl

/-- What a spelling tells about its start, which decides whether the root or a dot comes first. -/
theorem components_eq_of_start {left right : Path} (sameStart : left.isAbsolute = right.isAbsolute)
    (sameHead : left.isAbsolute = false → left.names.head? = right.names.head?)
    (sameInner : left.innerComponents = right.innerComponents) :
    left.components = right.components := by
  simp only [innerComponents] at sameInner
  simp only [components, sameInner, ← sameStart]
  cases isAbsolute : left.isAbsolute with
  | true => simp
  | false => simp [sameHead isAbsolute]

/-- After a slash, names that stand for the same components can be exchanged. -/
theorem components_append_slash_congr (directory : Bytes)
    (same : innerComponents ⟨left⟩ = innerComponents ⟨right⟩) :
    components ⟨directory ++ slash :: left⟩ = components ⟨directory ++ slash :: right⟩ := by
  apply components_eq_of_start
  · cases directory <;> rfl
  · intro isRelative
    cases directory with
    | nil => cases isRelative
    | cons byte rest =>
        have notSlash : byte ≠ slash := by simpa [isAbsolute] using isRelative
        rcases exists_names_eq_cons notSlash rest with ⟨first, others, isNames⟩
        rw [names_append_slash, names_append_slash, isNames]
        rfl
  · simp only [innerComponents, names_append_slash, List.filterMap_append] at same ⊢
    rw [same]

/-- A slash after a slash does not count. -/
theorem components_slash_slash (directory name : Bytes) :
    components ⟨directory ++ slash :: slash :: name⟩ = components ⟨directory ++ slash :: name⟩ := by
  apply components_append_slash_congr
  simp [innerComponents, names_slash]

/-- A dot between slashes does not count. -/
theorem components_slash_dot_slash (directory name : Bytes) :
    components ⟨directory ++ slash :: dot :: slash :: name⟩ =
      components ⟨directory ++ slash :: name⟩ := by
  apply components_append_slash_congr
  simp [innerComponents, names_dot_slash, componentOf?]

theorem current_not_mem_innerComponents (path : Path) :
    Component.current ∉ path.innerComponents := by
  intro inside
  rcases List.mem_filterMap.mp inside with ⟨name, -, isComponent⟩
  simp only [componentOf?] at isComponent
  split at isComponent
  · cases isComponent
  · split at isComponent <;> cases isComponent

/-- A dot in front counts, unless there is one already. -/
theorem components_dot_slash_eq_iff (path : Path) :
    components ⟨dot :: slash :: path.spelling⟩ = path.components ↔
      path.components.head? = some .current := by
  have withDot : components ⟨dot :: slash :: path.spelling⟩ =
      .current :: path.innerComponents := by
    have isRelative : isAbsolute ⟨dot :: slash :: path.spelling⟩ = false := rfl
    have isDot : componentOf? [dot] = none := rfl
    simp [components, isRelative, names_dot_slash, innerComponents, isDot]
  rw [withDot]
  constructor
  · intro same
    rw [← same]
    rfl
  · intro startsWithDot
    rw [components_eq] at startsWithDot ⊢
    split at startsWithDot
    · cases startsWithDot
    · split at startsWithDot
      · simp [*]
      · exact absurd (List.mem_of_head? startsWithDot) (current_not_mem_innerComponents path)

end Path

end FontCatalog
