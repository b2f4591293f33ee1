import FontCatalog.Sfnt.Font

/-!
# Searching a directory

A directory whose tags increase is searched by bisection. On such a directory bisection finds what
a search from the start would find, so that either way of looking up a tag comes to the first entry
with it.
-/

namespace FontCatalog

variable {side : Nat → Option Ordering} {low high place : Nat}

/-- Bisection finds a place when every place tells on which side of it the target lies. -/
theorem bisect_eq_some (above : low ≤ place) (below : place < high)
    (tells : ∀ other, other < high → side other = some (compare place other)) :
    bisect side low high = some place := by
  fun_induction bisect side low high with
  | case1 low high active middle missing =>
      rw [tells middle (by omega)] at missing
      cases missing
  | case2 low high active middle isLess ih =>
      rw [tells middle (by omega)] at isLess
      have inside : place < middle := Nat.compare_eq_lt.mp (Option.some.inj isLess)
      exact ih above inside fun other bound => tells other (by omega)
  | case3 low high active middle isGreater ih =>
      rw [tells middle (by omega)] at isGreater
      have inside : middle < place := Nat.compare_eq_gt.mp (Option.some.inj isGreater)
      exact ih inside below tells
  | case4 low high active middle isEqual =>
      rw [tells middle (by omega)] at isEqual
      rw [Nat.compare_eq_eq.mp (Option.some.inj isEqual)]
  | case5 low high inactive => omega

theorem side_of_bisect (found : bisect side low high = some place) :
    side place = some .eq := by
  fun_induction bisect side low high with
  | case1 low high active middle missing => cases found
  | case2 low high active middle isLess ih => exact ih found
  | case3 low high active middle isGreater ih => exact ih found
  | case4 low high active middle isEqual =>
      rw [← Option.some.inj found]
      exact isEqual
  | case5 low high inactive => cases found

namespace Sfnt.Directory

variable {directory : Directory} {tag : Tag}

theorem pairwise_of_increasesAbove {previous : UInt32}
    (increases : increasesAbove previous directory = true) :
    directory.Pairwise (fun left right => left.tag.code < right.tag.code) ∧
      ∀ entry ∈ directory, previous < entry.tag.code := by
  induction directory generalizing previous with
  | nil => exact ⟨.nil, by simp⟩
  | cons entry rest ih =>
      rw [increasesAbove, Bool.and_eq_true, decide_eq_true_eq] at increases
      rcases increases with ⟨above, others⟩
      rcases ih others with ⟨pairwise, larger⟩
      refine ⟨.cons larger pairwise, ?_⟩
      intro other isOther
      rcases List.mem_cons.mp isOther with rfl | later
      · exact above
      · exact UInt32.lt_trans above (larger other later)

/-- Bisection finds the first entry with a tag. -/
theorem bisected?_eq_find? (increasing : directory.Pairwise fun left right =>
    left.tag.code < right.tag.code) :
    bisected? directory tag = directory.find? fun entry => entry.tag == tag := by
  have ordered {left right : Nat} {leftEntry rightEntry : TableEntry}
      (isLeft : directory[left]? = some leftEntry) (isRight : directory[right]? = some rightEntry)
      (less : left < right) : leftEntry.tag.code < rightEntry.tag.code := by
    rcases List.getElem?_eq_some_iff.mp isLeft with ⟨_, rfl⟩
    rcases List.getElem?_eq_some_iff.mp isRight with ⟨_, rfl⟩
    exact List.pairwise_iff_getElem.mp increasing left right _ _ less
  cases sought : directory.find? fun entry => entry.tag == tag with
  | none =>
      have missing : ∀ entry ∈ directory, entry.tag ≠ tag := by
        simpa using sought
      simp only [bisected?, Option.bind_eq_bind, Option.bind_eq_none_iff]
      intro place found
      have isTarget := side_of_bisect found
      rcases Option.map_eq_some_iff.mp isTarget with ⟨entry, isEntry, isEqual⟩
      have sameCode : tag.code = entry.tag.code := by
        simpa using isEqual
      exact absurd (congrArg Tag.mk sameCode.symm) (missing entry (List.mem_of_getElem? isEntry))
  | some entry =>
      have isTag : entry.tag = tag := by
        simpa using List.find?_some sought
      rcases List.mem_iff_getElem?.mp (List.mem_of_find?_eq_some sought) with ⟨place, isEntry⟩
      have inside : place < directory.length := (List.getElem?_eq_some_iff.mp isEntry).1
      have found : bisect (fun place => (directory[place]?).map fun entry =>
          compare tag.code entry.tag.code) 0 directory.length = some place := by
        apply bisect_eq_some (Nat.zero_le place) inside
        intro other bound
        have isOther := List.getElem?_eq_getElem bound
        rw [isOther, Option.map_some, ← isTag]
        rcases Nat.lt_trichotomy place other with less | rfl | more
        · rw [Std.compare_eq_lt.mpr (ordered isEntry isOther less), Nat.compare_eq_lt.mpr less]
        · cases isOther.symm.trans isEntry
          simp
        · rw [Std.compare_eq_gt.mpr (ordered isOther isEntry more), Nat.compare_eq_gt.mpr more]
      simp [bisected?, found, isEntry]

/-- Looking up a tag finds the first entry with it, whether the tags increase or not. -/
theorem lookup?_eq_find? (directory : Directory) (tag : Tag) :
    directory.lookup? tag = directory.find? fun entry => entry.tag == tag := by
  unfold lookup?
  split
  · rename_i increases
    exact bisected?_eq_find? (pairwise_of_increasesAbove increases).1
  · rfl

end Sfnt.Directory

end FontCatalog
