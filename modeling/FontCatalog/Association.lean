/-!
# Associations

A finite map as a list of pairs with distinct keys, in the order in which the keys came in.
Looking up after an insertion and after an erasure is settled by the lemmas at the end.
-/

namespace FontCatalog

/-- A finite map from keys to values. -/
structure Association (Key Value : Type) where
  pairs : List (Key × Value)
  distinct : (pairs.map Prod.fst).Nodup

namespace Association

variable {Key Value : Type} [DecidableEq Key]

/-- The map without keys. -/
def empty : Association Key Value :=
  ⟨[], List.nodup_nil⟩

/-- The value under a key. -/
def get? (map : Association Key Value) (key : Key) : Option Value :=
  map.pairs.lookup key

/-- The pairs with a value put under a key, in the place of the old value if there is one. -/
def insertPair (key : Key) (value : Value) : List (Key × Value) → List (Key × Value)
  | [] => [(key, value)]
  | (held, current) :: rest =>
      if held = key then (key, value) :: rest else (held, current) :: insertPair key value rest

theorem fst_insertPair (key : Key) (value : Value) (pairs : List (Key × Value)) :
    (insertPair key value pairs).map Prod.fst =
      if key ∈ pairs.map Prod.fst then pairs.map Prod.fst else pairs.map Prod.fst ++ [key] := by
  induction pairs with
  | nil => simp [insertPair]
  | cons pair rest ih =>
      obtain ⟨held, current⟩ := pair
      by_cases same : held = key
      · simp [insertPair, same]
      · by_cases present : key ∈ rest.map Prod.fst
        · simp only [insertPair, same, if_false, List.map_cons, ih, present, if_true,
            List.mem_cons, or_true]
        · have absent : ¬key ∈ held :: rest.map Prod.fst := by
            simp only [List.mem_cons, present, or_false]
            exact fun equal => same equal.symm
          simp only [insertPair, same, if_false, List.map_cons, ih, present, absent,
            List.cons_append]

/-- The map with a value put under a key. -/
def insert (map : Association Key Value) (key : Key) (value : Value) : Association Key Value where
  pairs := insertPair key value map.pairs
  distinct := by
    rw [fst_insertPair]
    split
    · exact map.distinct
    · rename_i absent
      refine List.nodup_append.mpr ⟨map.distinct, by simp, ?_⟩
      intro left leftMem right rightMem equal
      simp only [List.mem_singleton] at rightMem
      exact absent (rightMem ▸ equal ▸ leftMem)

/-- The map with only the pairs whose keys are wanted. -/
def filterKeys (map : Association Key Value) (isWanted : Key → Bool) : Association Key Value where
  pairs := map.pairs.filter fun pair => isWanted pair.1
  distinct := map.distinct.sublist (List.Sublist.map Prod.fst List.filter_sublist)

theorem lookup_cons_eq_ite (key held : Key) (value : Value) (rest : List (Key × Value)) :
    ((held, value) :: rest).lookup key = if key = held then some value else rest.lookup key := by
  by_cases same : key = held
  · simp [same]
  · simp [List.lookup_cons, beq_eq_false_iff_ne.mpr same, same]

theorem lookup_insertPair (key other : Key) (value : Value) (pairs : List (Key × Value)) :
    (insertPair key value pairs).lookup other =
      if other = key then some value else pairs.lookup other := by
  induction pairs with
  | nil => simp [insertPair, lookup_cons_eq_ite]
  | cons pair rest ih =>
      obtain ⟨held, current⟩ := pair
      by_cases replaced : held = key
      · subst replaced
        simp only [insertPair, if_true, lookup_cons_eq_ite]
        split <;> rfl
      · simp only [insertPair, replaced, if_false, lookup_cons_eq_ite, ih]
        by_cases found : other = held
        · subst found
          simp [replaced]
        · simp [found]

@[simp]
theorem get?_empty (key : Key) : (empty : Association Key Value).get? key = none := rfl

theorem get?_insert (map : Association Key Value) (key other : Key) (value : Value) :
    (map.insert key value).get? other = if other = key then some value else map.get? other :=
  lookup_insertPair key other value map.pairs

theorem insertPair_of_absent (key : Key) (value : Value) (pairs : List (Key × Value))
    (absent : pairs.lookup key = none) : insertPair key value pairs = pairs ++ [(key, value)] := by
  induction pairs with
  | nil => rfl
  | cons pair rest ih =>
      obtain ⟨held, current⟩ := pair
      rw [lookup_cons_eq_ite] at absent
      split at absent
      · contradiction
      · rename_i different
        have other : ¬held = key := fun same => different same.symm
        simp only [insertPair, other, if_false, ih absent, List.cons_append]

theorem pairs_insert_of_absent (map : Association Key Value) (key : Key) (value : Value)
    (absent : map.get? key = none) :
    (map.insert key value).pairs = map.pairs ++ [(key, value)] :=
  insertPair_of_absent key value map.pairs absent

theorem mem_pairs_of_get? {map : Association Key Value} {key : Key} {value : Value}
    (found : map.get? key = some value) : (key, value) ∈ map.pairs := by
  have search : ∀ pairs : List (Key × Value),
      pairs.lookup key = some value → (key, value) ∈ pairs := by
    intro pairs
    induction pairs with
    | nil => intro nothing; simp at nothing
    | cons pair rest ih =>
        obtain ⟨held, current⟩ := pair
        intro lookup_found
        rw [lookup_cons_eq_ite] at lookup_found
        split at lookup_found
        · rename_i same
          cases lookup_found
          exact same ▸ List.mem_cons_self
        · exact List.mem_cons_of_mem _ (ih lookup_found)
  exact search map.pairs found

theorem get?_eq_some_iff {map : Association Key Value} {key : Key} {value : Value} :
    map.get? key = some value ↔ (key, value) ∈ map.pairs := by
  constructor
  · exact mem_pairs_of_get?
  · intro inside
    rcases map with ⟨pairs, distinct⟩
    simp only [get?] at inside ⊢
    induction pairs with
    | nil => cases inside
    | cons pair rest ih =>
        rcases pair with ⟨held, current⟩
        rw [List.map_cons, List.nodup_cons] at distinct
        rw [lookup_cons_eq_ite]
        rcases List.mem_cons.mp inside with here | later
        · cases here
          exact if_pos rfl
        · rw [if_neg, ih distinct.2 later]
          rintro rfl
          exact distinct.1 (List.mem_map.mpr ⟨_, later, rfl⟩)

end Association

end FontCatalog
