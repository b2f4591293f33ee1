import FontCatalog.Path
import Mathlib.Order.Compare

/-!
# The order of paths

Paths are ordered by their components as words are by their letters: the first component in which
two paths differ decides, and a path comes before those that go on from it. The root comes before
the dot, the dot before the two dots, and these come before the names, which are ordered by their
bytes. No two paths that differ in their components are level in this order, however they are
spelled.
-/

namespace FontCatalog

namespace Path

open Std

/-- A comparison of lists tells which of two lists comes first as the comparison of their elements
does. -/
theorem compareLex_eq_lt_iff {α : Type} {cmp : α → α → Ordering} [LawfulEqCmp cmp]
    {before : α → α → Prop} (isBefore : ∀ left right, cmp left right = .lt ↔ before left right)
    {left right : List α} : List.compareLex cmp left right = .lt ↔ List.Lex before left right := by
  induction left generalizing right with
  | nil => cases right <;> simp [List.compareLex]
  | cons first left ih =>
      cases right with
      | nil => simp [List.compareLex]
      | cons other right =>
          rw [List.compareLex_cons_cons, Ordering.then_eq_lt, isBefore,
            LawfulEqCmp.compare_eq_iff_eq, ih, List.cons_lex_cons_iff]

namespace Component

/-- One component comes before another: it is of an earlier kind, or both are names. -/
inductive Before : Component → Component → Prop
  | kind {left right : Component} (earlier : left.rank < right.rank) : Before left right
  | name {left right : Bytes} (earlier : List.Lex (· < ·) left right) :
      Before (.normal left) (.normal right)

variable {left right : Component}

theorem eq_of_rank_of_name (sameRank : left.rank = right.rank) (sameName : left.name = right.name) :
    left = right := by
  cases left <;> cases right <;> simp_all [rank, name]

instance : TransCmp Component.compare :=
  inferInstanceAs (TransCmp (compareLex (compareOn rank) (compareOn name)))

instance : LawfulEqCmp Component.compare where
  compare_self := ReflCmp.compare_self
  eq_of_compare := by
    intro left right level
    have names : LawfulEqCmp (List.compareLex (Ord.compare : UInt8 → UInt8 → Ordering)) :=
      inferInstance
    rw [compare, Ordering.then_eq_eq] at level
    exact eq_of_rank_of_name (LawfulEqCmp.eq_of_compare level.1) (names.eq_of_compare level.2)

theorem compare_eq_lt_iff : left.compare right = .lt ↔ left.Before right := by
  have sameRank : Ord.compare left.rank right.rank = .eq ↔ left.rank = right.rank :=
    LawfulEqCmp.compare_eq_iff_eq
  have earlierName : List.compareLex Ord.compare left.name right.name = .lt ↔
      List.Lex (· < ·) left.name right.name :=
    compareLex_eq_lt_iff fun _ _ => Std.compare_eq_lt
  rw [compare, Ordering.then_eq_lt, Nat.compare_eq_lt, sameRank, earlierName]
  constructor
  · rintro (earlier | ⟨level, earlier⟩)
    · exact .kind earlier
    · cases left <;> cases right <;> simp_all [rank, name, Before.name]
  · rintro (earlier | earlier)
    · exact .inl earlier
    · exact .inr ⟨rfl, earlier⟩

end Component

/-- One path comes before another. -/
def Before (left right : Path) : Prop :=
  List.Lex Component.Before left.components right.components

variable {left right other : Path}

instance : TransCmp Path.compare :=
  have lists : TransCmp (List.compareLex Component.compare) := inferInstance
  { eq_swap := lists.eq_swap
    isLE_trans := lists.isLE_trans }

theorem compare_eq_lt_iff : left.compare right = .lt ↔ left.Before right :=
  compareLex_eq_lt_iff fun _ _ => Component.compare_eq_lt_iff

theorem Before.trans (earlier : left.Before other) (later : other.Before right) :
    left.Before right := by
  rw [← compare_eq_lt_iff] at *
  exact TransCmp.lt_trans earlier later

instance : Asymm (List.Lex Component.Before) where
  asymm := by
    have isBefore : ∀ left right, List.compareLex Component.compare left right = .lt ↔
        List.Lex Component.Before left right :=
      fun _ _ => compareLex_eq_lt_iff fun _ _ => Component.compare_eq_lt_iff
    intro left right earlier later
    rw [← isBefore] at earlier later
    exact OrientedCmp.not_lt_of_lt earlier later

end Path

end FontCatalog
