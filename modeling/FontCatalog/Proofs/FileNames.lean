import FontCatalog.Proofs.JoinedPaths
import Mathlib.Data.List.TakeWhile
import Mathlib.Tactic.SplitIfs

/-!
# File names and extensions

The file name of a path can be read off its spelling. It stands behind a slash or at the start, and
what is behind it does not count: slashes, and dots that come right after a slash. The extension is
what stands behind the last dot of the file name. A dot with nothing in front of it, as in the names
of hidden files, does not start an extension.
-/

namespace FontCatalog

namespace Path

variable {path next : Path} {name stem extension spelling tail : Bytes}

/-! ## The end of a path -/

/-- What may stand behind the last component without being one: slashes, and dots that each come
right after a slash. -/
inductive IsTail : Bytes → Prop
  | nil : IsTail []
  | slash {tail : Bytes} (isTail : IsTail tail) : IsTail (tail ++ [Path.slash])
  | slashDot {tail : Bytes} (isTail : IsTail tail) : IsTail (tail ++ [Path.slash, Path.dot])

/-- The path ends in a component of the given spelling, but for what does not count. -/
def EndsIn (path : Path) (name : Bytes) : Prop :=
  ∃ front tail, path.spelling = front ++ name ++ tail ∧
    (front = [] ∨ front.getLast? = some slash) ∧ IsName name ∧ IsTail tail

theorem innerComponents_append_slash (left right : Bytes) :
    innerComponents ⟨left ++ slash :: right⟩ =
      innerComponents ⟨left⟩ ++ innerComponents ⟨right⟩ := by
  rw [innerComponents, names_append_slash, List.filterMap_append]
  rfl

theorem innerComponents_append_tail (isTail : IsTail tail) (spelling : Bytes) :
    innerComponents ⟨spelling ++ tail⟩ = innerComponents ⟨spelling⟩ := by
  have noName : innerComponents ⟨[]⟩ = [] := rfl
  have onlyDot : innerComponents ⟨[dot]⟩ = [] := rfl
  induction isTail with
  | nil => rw [List.append_nil]
  | slash _ ih =>
      rw [← List.append_assoc, innerComponents_append_slash, ih, noName, List.append_nil]
  | slashDot _ ih =>
      rw [← List.append_assoc, innerComponents_append_slash, ih, onlyDot, List.append_nil]

/-- The root and the dot in front of a path are no names, so the file name is the last of the other
components. -/
theorem fileName?_eq_some_iff_getLast? :
    path.fileName? = some name ↔ path.innerComponents.getLast? = some (.normal name) := by
  rw [fileName?, components_eq]
  rcases List.eq_nil_or_concat path.innerComponents with isNil | ⟨before, last, isConcat⟩
  · rw [isNil]
    split_ifs <;> simp
  · have isLast : ∀ first, (first :: (before ++ [last])).getLast? = some last := by
      intro first
      rw [← List.cons_append, List.getLast?_concat]
    rw [isConcat]
    split_ifs <;> cases last <;> simp [isLast]

theorem fileName?_eq_of_getLast? {other : Path}
    (same : path.innerComponents.getLast? = other.innerComponents.getLast?) :
    path.fileName? = other.fileName? := by
  apply Option.ext
  intro name
  rw [fileName?_eq_some_iff_getLast?, fileName?_eq_some_iff_getLast?, same]

theorem fileName?_append_tail (isTail : IsTail tail) (spelling : Bytes) :
    fileName? ⟨spelling ++ tail⟩ = fileName? ⟨spelling⟩ :=
  fileName?_eq_of_getLast? (congrArg _ (innerComponents_append_tail isTail spelling))

theorem exists_last_of_mem {byte : UInt8} (inside : byte ∈ spelling) :
    ∃ front last, spelling = front ++ byte :: last ∧ byte ∉ last := by
  rcases List.eq_append_cons_of_mem (List.mem_reverse.mpr inside) with
    ⟨last, front, isReverse, notInside⟩
  refine ⟨front.reverse, last.reverse, ?_, by simpa using notInside⟩
  rw [← List.reverse_reverse spelling, isReverse]
  simp

/-- Every spelling can be cut in front of its last component that counts and in front of what does
not count. If it has no such component, nothing is left in front. -/
theorem exists_last_component (spelling : Bytes) :
    ∃ front last tail, spelling = front ++ last ++ tail ∧
      (front = [] ∨ front.getLast? = some slash) ∧ slash ∉ last ∧ IsTail tail ∧
      ((last = [] ∨ last = [dot]) → front = []) := by
  by_cases inside : slash ∈ spelling
  · rcases exists_last_of_mem inside with ⟨front, last, isSpelling, notInside⟩
    have isShorter : front.length < spelling.length := by simp [isSpelling]
    subst isSpelling
    by_cases doesNotCount : last = [] ∨ last = [dot]
    · rcases exists_last_component front with
        ⟨before, middle, tail, rfl, opens, notSlash, isTail, onlyOne⟩
      rcases doesNotCount with rfl | rfl
      · exact ⟨before, middle, _, List.append_assoc .., opens, notSlash, .slash isTail, onlyOne⟩
      · exact ⟨before, middle, _, List.append_assoc .., opens, notSlash, .slashDot isTail, onlyOne⟩
    · exact ⟨front ++ [slash], last, [], by simp, .inr List.getLast?_concat, notInside, .nil,
        fun isEmpty => absurd isEmpty doesNotCount⟩
  · exact ⟨[], spelling, [], by simp, .inl rfl, inside, .nil, fun _ => rfl⟩
termination_by spelling.length

theorem join_eq_of_opens {front : Bytes} (opens : front = [] ∨ front.getLast? = some slash)
    (isName : IsName name) : (Path.mk front).join ⟨name⟩ = ⟨front ++ name⟩ := by
  simp [join, not_isAbsolute_of_isName isName, opens]

/-- The file name is the component in which a path ends, unless it is a dot or two dots. -/
theorem fileName?_eq_some_iff :
    path.fileName? = some name ↔ path.EndsIn name ∧ name ≠ [dot] ∧ name ≠ [dot, dot] := by
  rcases path with ⟨spelling⟩
  constructor
  · intro isFileName
    rcases exists_last_component spelling with
      ⟨front, last, tail, rfl, opens, notSlash, isTail, onlyOne⟩
    rw [fileName?_append_tail isTail] at isFileName
    by_cases doesNotCount : last = [] ∨ last = [dot]
    · rw [onlyOne doesNotCount] at isFileName
      rcases doesNotCount with rfl | rfl <;> cases isFileName
    · rw [not_or] at doesNotCount
      have isName : IsName last := ⟨doesNotCount.1, notSlash⟩
      have isJoin := join_eq_of_opens opens isName
      by_cases isParent : last = [dot, dot]
      · have isLast : innerComponents ⟨front ++ last⟩ = innerComponents ⟨front⟩ ++ [.parent] := by
          rw [← isJoin, innerComponents, names_join isName, List.filterMap_append, isParent]
          rfl
        rw [fileName?_eq_some_iff_getLast?, isLast, List.getLast?_concat] at isFileName
        cases isFileName
      · rw [← isJoin, fileName?_join isName doesNotCount.2 isParent] at isFileName
        obtain rfl := Option.some.inj isFileName
        exact ⟨⟨front, tail, rfl, opens, isName, isTail⟩, doesNotCount.2, isParent⟩
  · rintro ⟨⟨front, tail, rfl, opens, isName, isTail⟩, notCurrent, notParent⟩
    rw [fileName?_append_tail isTail, ← join_eq_of_opens opens isName,
      fileName?_join isName notCurrent notParent]

/-! ## The extension of a name -/

theorem extensionOf?_of_not_mem (noDot : dot ∉ name) : extensionOf? name = none := by
  have nothing : name.reverse.dropWhile (· ≠ dot) = [] := by
    rw [List.dropWhile_eq_nil_iff]
    intro byte inside
    simpa using ne_of_mem_of_not_mem (List.mem_reverse.mp inside) noDot
  rw [extensionOf?, nothing]

theorem extensionOf?_append_dot (noDot : dot ∉ extension) (stem : Bytes) :
    extensionOf? (stem ++ dot :: extension) = if stem = [] then none else some extension := by
  have passed : ∀ byte ∈ extension.reverse, decide (byte ≠ dot) = true := by
    intro byte inside
    simpa using ne_of_mem_of_not_mem (List.mem_reverse.mp inside) noDot
  have isReverse : (stem ++ dot :: extension).reverse =
      extension.reverse ++ dot :: stem.reverse := by simp
  have isTaken : (extension.reverse ++ dot :: stem.reverse).takeWhile (· ≠ dot) =
      extension.reverse := by
    rw [List.takeWhile_append_of_pos passed]
    simp
  have isDropped : (extension.reverse ++ dot :: stem.reverse).dropWhile (· ≠ dot) =
      dot :: stem.reverse := by
    rw [List.dropWhile_append_of_pos passed]
    simp
  rw [extensionOf?, isReverse, isTaken, isDropped]
  rcases List.eq_nil_or_concat stem with rfl | ⟨front, last, rfl⟩
  · rfl
  · simp

/-- The extension is what stands behind the last dot, if something stands in front of that dot. -/
theorem extensionOf?_eq_some_iff :
    extensionOf? name = some extension ↔
      ∃ stem, name = stem ++ dot :: extension ∧ stem ≠ [] ∧ dot ∉ extension := by
  constructor
  · intro isExtension
    by_cases inside : dot ∈ name
    · rcases exists_last_of_mem inside with ⟨stem, last, rfl, noDot⟩
      rw [extensionOf?_append_dot noDot] at isExtension
      split at isExtension
      · cases isExtension
      · rename_i notEmpty
        obtain rfl := Option.some.inj isExtension
        exact ⟨stem, rfl, notEmpty, noDot⟩
    · rw [extensionOf?_of_not_mem inside] at isExtension
      cases isExtension
  · rintro ⟨stem, rfl, notEmpty, noDot⟩
    rw [extensionOf?_append_dot noDot, if_neg notEmpty]

end Path

end FontCatalog
