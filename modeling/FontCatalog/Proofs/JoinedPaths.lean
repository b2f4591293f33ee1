import FontCatalog.Format
import FontCatalog.Proofs.Spellings

/-!
# Paths that names are joined to

A walk spells the path of what it comes across as the path of its root with the names on the way
joined to it, one after another. No byte of such a name is a slash, so the names can be read back
off the path, and paths that are joined from different names are different.
-/

namespace FontCatalog

namespace Path

/-- The bytes can stand between two slashes of a path. -/
def IsName (name : Bytes) : Prop :=
  name ≠ [] ∧ slash ∉ name

instance (name : Bytes) : Decidable (IsName name) :=
  inferInstanceAs (Decidable (_ ∧ _))

/-- The path that leads from a path on along names. -/
def along (path : Path) (names : List Bytes) : Path :=
  names.foldl (fun reached name => reached.join ⟨name⟩) path

@[simp]
theorem along_nil (path : Path) : path.along [] = path := rfl

@[simp]
theorem along_cons (path : Path) (name : Bytes) (names : List Bytes) :
    path.along (name :: names) = (path.join ⟨name⟩).along names := rfl

theorem along_concat (path : Path) (names : List Bytes) (name : Bytes) :
    path.along (names ++ [name]) = (path.along names).join ⟨name⟩ := by
  simp [along]

variable {path : Path} {name : Bytes} {names others : List Bytes}

theorem names_of_isName (isName : IsName name) : Path.names ⟨name⟩ = [name] := by
  have unseparated : ∀ byte ∈ name, (byte == slash) = false := by
    intro byte inside
    rw [beq_eq_false_iff_ne]
    rintro rfl
    exact isName.2 inside
  simp [Path.names, pieces_eq_singleton unseparated, isName.1]

theorem isName_of_mem_names (inside : name ∈ path.names) : IsName name := by
  rcases List.mem_filter.mp inside with ⟨isPiece, notEmpty⟩
  refine ⟨by simpa using notEmpty, ?_⟩
  intro slashInside
  simpa using not_separator_of_mem_pieces isPiece slash slashInside

theorem not_isAbsolute_of_isName (isName : IsName name) : isAbsolute ⟨name⟩ = false := by
  have notHead : name.head? ≠ some slash := fun isHead => isName.2 (List.mem_of_head? isHead)
  simpa [isAbsolute] using notHead

/-- A slash at the end of a path adds no name. -/
theorem names_append_slash_self (left : Bytes) :
    Path.names ⟨left ++ [slash]⟩ = Path.names ⟨left⟩ := by
  rw [names_append_slash]
  simp [Path.names, pieces]

/-- The names of a relative path that is joined to a path come after the names of that path. -/
theorem names_join_of_relative {next : Path} (isRelative : next.isAbsolute = false) :
    (path.join next).names = path.names ++ next.names := by
  rcases path with ⟨spelling⟩
  simp only [join, isRelative, Bool.false_eq_true, if_false]
  split
  · rename_i ends
    rcases ends with rfl | slashLast
    · rfl
    · rcases List.getLast?_eq_some_iff.mp slashLast with ⟨front, rfl⟩
      rw [List.append_assoc, List.singleton_append, names_append_slash, names_append_slash_self]
  · exact names_append_slash spelling next.spelling

theorem names_join (isName : IsName name) : (path.join ⟨name⟩).names = path.names ++ [name] := by
  rw [names_join_of_relative (not_isAbsolute_of_isName isName), names_of_isName isName]

theorem names_along (areNames : ∀ name ∈ names, IsName name) :
    (path.along names).names = path.names ++ names := by
  induction names generalizing path with
  | nil => simp
  | cons name rest ih =>
      rw [List.forall_mem_cons] at areNames
      rw [along_cons, ih areNames.2, names_join areNames.1]
      simp

theorem along_injective (areNames : ∀ name ∈ names, IsName name)
    (otherNames : ∀ name ∈ others, IsName name)
    (same : path.along names = path.along others) : names = others := by
  have sameNames : path.names ++ names = path.names ++ others := by
    rw [← names_along areNames, ← names_along otherNames, same]
  exact List.append_cancel_left sameNames

theorem length_le_length_join (isName : IsName name) :
    path.spelling.length + name.length ≤ (path.join ⟨name⟩).spelling.length := by
  simp only [join, not_isAbsolute_of_isName isName, Bool.false_eq_true, if_false]
  split <;> simp

theorem fileName?_of_names (isNames : path.names = names ++ [name]) (notCurrent : name ≠ [dot])
    (notParent : name ≠ [dot, dot]) : path.fileName? = some name := by
  have isNormal : componentOf? name = some (.normal name) := by
    simp [componentOf?, notCurrent, notParent]
  have isLast : path.components.getLast? = some (.normal name) := by
    simp only [components, isNames, List.filterMap_append, List.filterMap_cons, isNormal,
      List.filterMap_nil, ← List.cons_append]
    split
    · exact List.getLast?_concat
    · split <;> exact List.getLast?_concat
  simp [fileName?, isLast]

/-- The file name of a path is the last name that was joined to it. -/
theorem fileName?_join (isName : IsName name) (notCurrent : name ≠ [dot])
    (notParent : name ≠ [dot, dot]) : (path.join ⟨name⟩).fileName? = some name :=
  fileName?_of_names (names_join isName) notCurrent notParent

/-- What is at a path that a walk spells is classified by its own name alone. -/
theorem classify_join (isName : IsName name) (notCurrent : name ≠ [dot])
    (notParent : name ≠ [dot, dot]) :
    (path.join ⟨name⟩).classify = (Path.mk name).classify := by
  have alone : (Path.mk []).join ⟨name⟩ = ⟨name⟩ := by
    simp [join, not_isAbsolute_of_isName isName]
  have ownName : (Path.mk name).fileName? = some name :=
    alone ▸ fileName?_join isName notCurrent notParent
  simp only [classify, extension?, ownName, fileName?_join isName notCurrent notParent]

end Path

end FontCatalog
