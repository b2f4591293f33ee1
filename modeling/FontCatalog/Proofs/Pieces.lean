import FontCatalog.Bytes

/-!
# Pieces between separators

A text is taken apart at its separators, and can be taken apart at any one of them first. A piece
has no separator inside, and a text without separators is its own only piece.
-/

namespace FontCatalog

variable {α : Type}

theorem pieces_eq_splitOnP (isSeparator : α → Bool) (text : List α) :
    pieces isSeparator text = text.splitOnP isSeparator := by
  induction text with
  | nil => rfl
  | cons element rest ih =>
      rw [pieces, ih, List.splitOnP_cons_eq_if_modifyHead]
      rcases List.exists_cons_of_ne_nil (List.splitOnP_ne_nil isSeparator rest) with
        ⟨first, others, isPieces⟩
      rw [isPieces]
      rfl

theorem exists_pieces_eq_cons (isSeparator : α → Bool) (text : List α) :
    ∃ first others, pieces isSeparator text = first :: others := by
  rw [pieces_eq_splitOnP]
  exact List.exists_cons_of_ne_nil (List.splitOnP_ne_nil isSeparator text)

/-- The pieces of a text are those on the two sides of any of its separators. -/
theorem pieces_append_cons (isSeparator : α → Bool) {separator : α}
    (separates : isSeparator separator = true) (left right : List α) :
    pieces isSeparator (left ++ separator :: right) =
      pieces isSeparator left ++ pieces isSeparator right := by
  simp only [pieces_eq_splitOnP]
  exact List.splitOnP_append_cons left right separates

theorem pieces_eq_singleton {isSeparator : α → Bool} {text : List α}
    (unseparated : ∀ element ∈ text, isSeparator element = false) :
    pieces isSeparator text = [text] := by
  rw [pieces_eq_splitOnP]
  exact List.splitOnP_eq_singleton unseparated

theorem length_pieces (isSeparator : α → Bool) (text : List α) :
    (pieces isSeparator text).length = text.countP isSeparator + 1 := by
  induction text with
  | nil => rfl
  | cons element rest ih =>
      rcases exists_pieces_eq_cons isSeparator rest with ⟨first, others, isPieces⟩
      rw [isPieces] at ih
      simp only [pieces, isPieces, List.countP_cons]
      split
      · rw [List.length_cons, ih]
      · exact ih

theorem not_separator_of_mem_pieces {isSeparator : α → Bool} {text piece : List α}
    (inside : piece ∈ pieces isSeparator text) :
    ∀ element ∈ piece, isSeparator element = false := by
  induction text generalizing piece with
  | nil => simp_all [pieces]
  | cons element rest ih =>
      rcases exists_pieces_eq_cons isSeparator rest with ⟨first, others, isPieces⟩
      rw [isPieces] at ih
      simp only [pieces, isPieces] at inside
      split at inside
      · rcases List.mem_cons.mp inside with rfl | later
        · simp
        · exact ih later
      · rename_i unseparated
        rcases List.mem_cons.mp inside with rfl | later
        · rw [List.forall_mem_cons]
          exact ⟨by simpa using unseparated, ih List.mem_cons_self⟩
        · exact ih (List.mem_cons_of_mem _ later)

end FontCatalog
