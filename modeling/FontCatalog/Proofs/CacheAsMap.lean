import FontCatalog.Cache.Lemmas
import FontCatalog.Proofs.Spellings
import FontCatalog.Session
import Mathlib.Data.Finmap

/-!
# The cache is a map

Calls that are made one after another cannot tell the cache from a plain finite map, whichever of
the two ways it loads at need: a call that holds the slot of its key leaves an empty slot behind
where it does not come up with a program, and the two calls that look up and store leave none. The
two caches are not equal, but each of them mirrors the same map. The number of programs is read off
the map as well, since no two keys share a slot.

What the map holds is also told by the history of the calls: the instance that was stored last
since everything was cleared.
-/

namespace FontCatalog

open Cache

/-- How a call that loads at need ends, by what its key holds: the loader runs only when this is
nothing. -/
def Attempt.outcome {Value : Type} (attempt : Attempt Value) : Option Value → Outcome Value
  | some value => .held value
  | none => .ran attempt

theorem Attempt.value?_outcome {Value : Type} (attempt : Attempt Value) (held : Option Value) :
    (attempt.outcome held).value? = held.or attempt.value? := by
  cases held <;> rfl

/-! ## Plain maps -/

/-- A finite map, as what a cache should be. -/
abbrev PlainMap (Key Value : Type) := Finmap fun _ : Key => Value

namespace PlainMap

variable {Key Value : Type} [DecidableEq Key]

/-- What a call on a plain map replies. -/
def reply (map : PlainMap Key Value) : CacheCall Key Value → CacheReply Value
  | .get key => .found (map.lookup key)
  | .put _ _ => .done
  | .getOrLoad key attempt => .came (attempt.outcome (map.lookup key))
  | .clear => .done
  | .count => .counted map.keys.card

/-- The plain map that a call leaves behind. -/
def after (map : PlainMap Key Value) : CacheCall Key Value → PlainMap Key Value
  | .get _ => map
  | .put key value => map.insert key value
  | .getOrLoad key attempt =>
      match attempt.outcome (map.lookup key) with
      | .ran (.loaded value) => map.insert key value
      | _ => map
  | .clear => ∅
  | .count => map

/-- The plain map after calls, one after another, and the replies to them. -/
def run (map : PlainMap Key Value) :
    List (CacheCall Key Value) → PlainMap Key Value × List (CacheReply Value)
  | [] => (map, [])
  | call :: rest =>
      let (last, replies) := run (map.after call) rest
      (last, map.reply call :: replies)

theorem lookup_insert_eq_ite (map : PlainMap Key Value) (key other : Key) (value : Value) :
    (map.insert key value).lookup other = if other = key then some value else map.lookup other := by
  split
  · rename_i same
    subst same
    exact Finmap.lookup_insert map
  · rename_i different
    exact Finmap.lookup_insert_of_ne map different

theorem lookup_after_getOrLoad (map : PlainMap Key Value) (key other : Key)
    (attempt : Attempt Value) :
    (map.after (.getOrLoad key attempt)).lookup other =
      if other = key then (map.lookup key).or attempt.value? else map.lookup other := by
  by_cases same : other = key
  · subst same
    cases held : map.lookup other with
    | some value => simp [after, Attempt.outcome, held]
    | none => cases attempt <;> simp [after, Attempt.outcome, held, Attempt.value?]
  · cases held : map.lookup key with
    | some value => simp [after, Attempt.outcome, held, same]
    | none => cases attempt <;> simp [after, Attempt.outcome, held, same]

end PlainMap

/-! ## Calls on a cache -/

/-- The value that a call has stored under a key, going by what it was replied. -/
def CacheCall.stored? {Key Value : Type} [DecidableEq Key] (key : Key) :
    CacheCall Key Value → CacheReply Value → Option Value
  | .put other value, _ => if other = key then some value else none
  | .getOrLoad other _, .came (.ran (.loaded value)) => if other = key then some value else none
  | _, _ => none

/-- The value that was stored last under a key since everything was cleared, in a history that has
the latest call in front. -/
def lastStored? {Key Value : Type} [DecidableEq Key] (key : Key) :
    List (CacheCall Key Value × CacheReply Value) → Option Value
  | [] => none
  | (.clear, _) :: _ => none
  | (call, reply) :: earlier => (call.stored? key reply).or (lastStored? key earlier)

namespace FontCache

variable {policy : CachePolicy} {cache : FontCache} {map : PlainMap FontKey Instance}

/-- The cache after a call that is made alone, and the reply to it. -/
def perform (policy : CachePolicy) (cache : FontCache) :
    CacheCall FontKey Instance → FontCache × CacheReply Instance
  | .get key => (cache, .found (cache.get? key))
  | .put key held => (cache.put key held, .done)
  | .getOrLoad key attempt =>
      let (after, outcome) := policy.getOrLoad cache key attempt
      (after, .came outcome)
  | .clear => (cache.clear, .done)
  | .count => (cache, .counted cache.size)

/-- The cache after calls, one after another, and the replies to them. -/
def run (policy : CachePolicy) (cache : FontCache) :
    List (CacheCall FontKey Instance) → FontCache × List (CacheReply Instance)
  | [] => (cache, [])
  | call :: rest =>
      let (next, reply) := perform policy cache call
      let (last, replies) := run policy next rest
      (last, reply :: replies)

/-- The calls with their replies, the latest one in front. -/
def history (policy : CachePolicy) (cache : FontCache) (calls : List (CacheCall FontKey Instance)) :
    List (CacheCall FontKey Instance × CacheReply Instance) :=
  (calls.zip (run policy cache calls).2).reverse

end FontCache

namespace Cache

variable {Key Value : Type} {cache : Cache Key Value}

/-! ## The number of values -/

/-- The keys of a cache that hold a value, in the order in which they came in. -/
def heldKeys (cache : Cache Key Value) : List Key :=
  (cache.index.pairs.filter fun pair => (cache.content pair.2).isSome).map Prod.fst

theorem length_heldKeys (cache : Cache Key Value) : cache.heldKeys.length = cache.size := by
  rw [heldKeys, List.length_map, ← List.countP_eq_length_filter, size, attached, List.countP_map]
  rfl

theorem nodup_heldKeys (cache : Cache Key Value) : cache.heldKeys.Nodup :=
  cache.index.distinct.sublist (List.Sublist.map Prod.fst List.filter_sublist)

variable [DecidableEq Key] {key : Key} {map : PlainMap Key Value}

theorem mem_heldKeys_iff : key ∈ cache.heldKeys ↔ (cache.get? key).isSome := by
  simp only [heldKeys, List.mem_map, List.mem_filter, get?, slot?, Option.bind_eq_bind,
    Option.isSome_bind]
  constructor
  · rintro ⟨⟨other, slot⟩, ⟨inside, full⟩, rfl⟩
    rw [Association.get?_eq_some_iff.mpr inside]
    exact full
  · intro held
    cases found : cache.index.get? key with
    | none => simp [found] at held
    | some slot =>
        rw [found] at held
        exact ⟨(key, slot), ⟨Association.get?_eq_some_iff.mp found, held⟩, rfl⟩

/-- Caches that hold the same values hold equally many. -/
theorem size_eq_of_get?_eq {other : Cache Key Value}
    (same : ∀ key, cache.get? key = other.get? key) :
    cache.size = other.size := by
  rw [← length_heldKeys, ← length_heldKeys]
  apply List.Perm.length_eq
  rw [List.perm_ext_iff_of_nodup cache.nodup_heldKeys other.nodup_heldKeys]
  intro key
  rw [mem_heldKeys_iff, mem_heldKeys_iff, same key]

/-! ## Caches that mirror a map -/

/-- The cache holds what the map holds. -/
def Mirrors (cache : Cache Key Value) (map : PlainMap Key Value) : Prop :=
  ∀ key, cache.get? key = map.lookup key

theorem Mirrors.size_eq (mirrors : cache.Mirrors map) : cache.size = map.keys.card := by
  have sameKeys : cache.heldKeys.toFinset = map.keys := by
    ext key
    rw [List.mem_toFinset, mem_heldKeys_iff, mirrors key, Finmap.mem_keys, Finmap.lookup_isSome]
  rw [← sameKeys, List.toFinset_card_of_nodup cache.nodup_heldKeys, length_heldKeys]

theorem get?_lookThenStore (cache : Cache Key Value) (key other : Key) (attempt : Attempt Value) :
    (cache.lookThenStore key attempt).1.get? other =
      (cache.getOrLoad key attempt).1.get? other := by
  rw [get?_getOrLoad]
  unfold lookThenStore
  by_cases same : other = key
  · subst same
    cases held : cache.get? other with
    | some value => simp [held]
    | none => cases attempt <;> simp [held, get?_put, Attempt.value?]
  · cases cache.get? key with
    | some value => simp [same]
    | none => cases attempt <;> simp [same, get?_put]

end Cache

namespace CachePolicy

variable {policy : CachePolicy} {cache : FontCache} {map : PlainMap FontKey Instance}

/-- Both ways of loading at need come to the same end. -/
theorem snd_getOrLoad_eq (policy : CachePolicy) (cache : FontCache) (key : FontKey)
    (attempt : Attempt Instance) :
    (policy.getOrLoad cache key attempt).2 = attempt.outcome (cache.get? key) := by
  have held : (cache.getOrLoad key attempt).2 = attempt.outcome (cache.get? key) := by
    rw [snd_getOrLoad]
    cases cache.get? key <;> rfl
  cases policy with
  | holdSlot => exact held
  | lookThenStore => exact (snd_lookThenStore cache key attempt).trans held

/-- Both ways of loading at need keep what was loaded, and nothing else. -/
theorem get?_getOrLoad_eq (policy : CachePolicy) (cache : FontCache) (key other : FontKey)
    (attempt : Attempt Instance) :
    (policy.getOrLoad cache key attempt).1.get? other =
      if other = key then (cache.get? key).or attempt.value? else cache.get? other := by
  cases policy with
  | holdSlot => exact get?_getOrLoad cache key other attempt
  | lookThenStore =>
      exact (get?_lookThenStore cache key other attempt).trans
        (get?_getOrLoad cache key other attempt)

end CachePolicy

namespace FontCache

variable {policy : CachePolicy} {cache : FontCache} {map : PlainMap FontKey Instance}
  {call : CacheCall FontKey Instance}

theorem reply_eq (mirrors : cache.Mirrors map) (call : CacheCall FontKey Instance) :
    (perform policy cache call).2 = map.reply call := by
  cases call with
  | get key => exact congrArg CacheReply.found (mirrors key)
  | put key held => rfl
  | getOrLoad key attempt =>
      simp only [perform, policy.snd_getOrLoad_eq, mirrors key, PlainMap.reply]
  | clear => rfl
  | count => exact congrArg CacheReply.counted mirrors.size_eq

theorem mirrors_perform (policy : CachePolicy) (mirrors : cache.Mirrors map)
    (call : CacheCall FontKey Instance) :
    (perform policy cache call).1.Mirrors (map.after call) := by
  intro other
  cases call with
  | get key => exact mirrors other
  | put key held =>
      simp only [perform, PlainMap.after, get?_put, PlainMap.lookup_insert_eq_ite, mirrors other]
  | getOrLoad key attempt =>
      simp only [perform, policy.get?_getOrLoad_eq, PlainMap.lookup_after_getOrLoad, mirrors key,
        mirrors other]
  | clear => simp [perform, PlainMap.after]
  | count => exact mirrors other

theorem mirrors_run (policy : CachePolicy) (mirrors : cache.Mirrors map)
    (calls : List (CacheCall FontKey Instance)) :
    (run policy cache calls).1.Mirrors (map.run calls).1 ∧
      (run policy cache calls).2 = (map.run calls).2 := by
  induction calls generalizing cache map with
  | nil => exact ⟨mirrors, rfl⟩
  | cons call rest ih =>
      rcases ih (mirrors_perform policy mirrors call) with ⟨mirrorsLast, sameReplies⟩
      refine ⟨mirrorsLast, ?_⟩
      simp only [run, PlainMap.run, sameReplies, reply_eq mirrors]

/-! ## What was stored last -/

theorem get?_perform_eq (policy : CachePolicy) (key : FontKey)
    {earlier : List (CacheCall FontKey Instance × CacheReply Instance)}
    (told : cache.get? key = lastStored? key earlier) (call : CacheCall FontKey Instance) :
    (perform policy cache call).1.get? key =
      lastStored? key ((call, (perform policy cache call).2) :: earlier) := by
  cases call with
  | get other => exact told
  | put other held =>
      by_cases same : other = key
      · simp [perform, lastStored?, CacheCall.stored?, get?_put, same]
      · have different : ¬key = other := fun equal => same equal.symm
        simp [perform, lastStored?, CacheCall.stored?, get?_put, same, different, told]
  | getOrLoad other attempt =>
      simp only [perform, policy.get?_getOrLoad_eq, policy.snd_getOrLoad_eq, lastStored?]
      by_cases same : key = other
      · subst same
        cases held : cache.get? key with
        | some value => simp [Attempt.outcome, CacheCall.stored?, ← told, held]
        | none =>
            cases attempt <;>
              simp [Attempt.outcome, CacheCall.stored?, Attempt.value?, ← told, held]
      · have different : ¬other = key := fun equal => same equal.symm
        cases cache.get? other with
        | some value => simp [Attempt.outcome, CacheCall.stored?, same, told]
        | none => cases attempt <;> simp [Attempt.outcome, CacheCall.stored?, same, different, told]
  | clear => rfl
  | count => exact told

theorem get?_run_eq (policy : CachePolicy) (key : FontKey)
    {earlier : List (CacheCall FontKey Instance × CacheReply Instance)}
    (told : cache.get? key = lastStored? key earlier) (calls : List (CacheCall FontKey Instance)) :
    (run policy cache calls).1.get? key =
      lastStored? key (history policy cache calls ++ earlier) := by
  induction calls generalizing cache earlier with
  | nil => exact told
  | cons call rest ih =>
      -- The history grows at its front, so that what was told so far moves to the back.
      have later := ih (get?_perform_eq policy key told call)
      simp only [run, history, List.zip_cons_cons, List.reverse_cons, List.append_assoc,
        List.singleton_append] at later ⊢
      exact later

/-! ## Main statement -/

/-- A cache on which calls are made one after another, from an empty one on, is a map of instances
that were stored. -/
structure ActsAsMap (policy : CachePolicy) : Prop where
  /-- Every reply is that of a plain finite map. -/
  replies_eq : ∀ calls, (run policy .empty calls).2 = (PlainMap.run ∅ calls).2
  /-- What is found is what was stored last. -/
  get_eq : ∀ calls key, (perform policy (run policy .empty calls).1 (.get key)).2 =
    .found (lastStored? key (history policy .empty calls))
  /-- The loader runs exactly when nothing is stored, and otherwise what was stored last is
  returned. -/
  getOrLoad_eq : ∀ calls key attempt,
    (perform policy (run policy .empty calls).1 (.getOrLoad key attempt)).2 =
      .came (attempt.outcome (lastStored? key (history policy .empty calls)))
  /-- No later reply tells whether a loader ran that came up with nothing. -/
  unnoticed : ∀ calls key attempt later, attempt.value? = none →
    (run policy (perform policy (run policy .empty calls).1 (.getOrLoad key attempt)).1 later).2 =
      (run policy (run policy .empty calls).1 later).2
  /-- The size is the number of keys under which something is stored. -/
  size_eq : ∀ calls, ∃ keys : Finset FontKey,
    (∀ key, key ∈ keys ↔ (lastStored? key (history policy .empty calls)).isSome) ∧
      (run policy .empty calls).1.size = keys.card
  isEmpty_iff : ∀ calls, (run policy .empty calls).1.isEmpty = true ↔
    ∀ key, lastStored? key (history policy .empty calls) = none

theorem actsAsMap (policy : CachePolicy) : ActsAsMap policy := by
  have mirrors (calls : List (CacheCall FontKey Instance)) :
      (run policy .empty calls).1.Mirrors (PlainMap.run ∅ calls).1 ∧
        (run policy .empty calls).2 = (PlainMap.run ∅ calls).2 :=
    mirrors_run policy (fun key => by simp) calls
  have stored (calls : List (CacheCall FontKey Instance)) (key : FontKey) :
      (run policy .empty calls).1.get? key = lastStored? key (history policy .empty calls) := by
    have nothing : (Cache.empty : FontCache).get? key = lastStored? key [] := rfl
    have told := get?_run_eq policy key nothing calls
    rwa [List.append_nil] at told
  have size_eq (calls : List (CacheCall FontKey Instance)) : ∃ keys : Finset FontKey,
      (∀ key, key ∈ keys ↔ (lastStored? key (history policy .empty calls)).isSome) ∧
        (run policy .empty calls).1.size = keys.card := by
    refine ⟨(PlainMap.run ∅ calls).1.keys, ?_, (mirrors calls).1.size_eq⟩
    intro key
    rw [← stored calls key, (mirrors calls).1 key, Finmap.mem_keys, Finmap.lookup_isSome]
  refine ⟨fun calls => (mirrors calls).2, ?_, ?_, ?_, size_eq, ?_⟩
  · intro calls key
    exact congrArg CacheReply.found (stored calls key)
  · intro calls key attempt
    simp only [perform, policy.snd_getOrLoad_eq, stored calls key]
  · intro calls key attempt later nothing
    -- The cache may have an empty slot more, but it mirrors the same map.
    have unchanged : ((PlainMap.run ∅ calls).1.after (.getOrLoad key attempt)) =
        (PlainMap.run ∅ calls).1 := by
      apply Finmap.ext_lookup
      intro other
      rw [PlainMap.lookup_after_getOrLoad, nothing, Option.or_none]
      split
      · rename_i same
        rw [same]
      · rfl
    have withLoader := mirrors_perform policy (mirrors calls).1 (.getOrLoad key attempt)
    rw [unchanged] at withLoader
    rw [(mirrors_run policy withLoader later).2, (mirrors_run policy (mirrors calls).1 later).2]
  · intro calls
    rcases size_eq calls with ⟨keys, isKey, size_eq⟩
    rw [isEmpty, size_eq, beq_iff_eq, Finset.card_eq_zero, Finset.eq_empty_iff_forall_notMem]
    simp only [isKey, Option.not_isSome_iff_eq_none]

/-- Calls made one after another see a cache as a map, in which way ever it loads at need, and both
ways show the same replies and sizes. The keys of records tell apart formats, PostScript names and
the components of paths, and nothing else: doubled slashes and inner dots are one place, a dot in
front is another. -/
theorem acts_as_map_by_key :
    (∀ policy, ActsAsMap policy) ∧
      (∀ calls, (run .lookThenStore .empty calls).2 = (run .holdSlot .empty calls).2 ∧
        (run .lookThenStore .empty calls).1.size = (run .holdSlot .empty calls).1.size) ∧
      (∀ left right : FontRecord, left.key = right.key ↔
        left.format = right.format ∧ left.postscriptName = right.postscriptName ∧
          left.file.components = right.file.components) ∧
      ∀ directory name : Bytes,
        Path.components ⟨directory ++ Path.slash :: Path.slash :: name⟩ =
            Path.components ⟨directory ++ Path.slash :: name⟩ ∧
          Path.components ⟨directory ++ Path.slash :: Path.dot :: Path.slash :: name⟩ =
            Path.components ⟨directory ++ Path.slash :: name⟩ ∧
          (Path.components ⟨Path.dot :: Path.slash :: (directory ++ Path.slash :: name)⟩ =
              Path.components ⟨directory ++ Path.slash :: name⟩ ↔
            (Path.components ⟨directory ++ Path.slash :: name⟩).head? = some .current) := by
  have empty_mirrors : Mirrors (.empty : FontCache) ∅ := by
    intro key
    simp
  refine ⟨actsAsMap, ?_, ?_, ?_⟩
  · intro calls
    rcases mirrors_run .lookThenStore empty_mirrors calls with ⟨mirrors, replies_eq⟩
    rcases mirrors_run .holdSlot empty_mirrors calls with ⟨others, otherReplies_eq⟩
    exact ⟨replies_eq.trans otherReplies_eq.symm, mirrors.size_eq.trans others.size_eq.symm⟩
  · intro left right
    simp [FontRecord.key]
  · intro directory name
    exact ⟨Path.components_slash_slash directory name,
      Path.components_slash_dot_slash directory name,
      Path.components_dot_slash_eq_iff ⟨directory ++ Path.slash :: name⟩⟩

/-! ## Three spellings

Records of one font under three spellings of its path, of which two are one key. -/

namespace Specimen

/-- The key of the font `A` in a file. -/
def keyOf (file : String) : FontKey :=
  (FontRecord.ofType1 (Path.ofString file) "A").key

/-- An instance of a font without data, as a cache may hold it. -/
def held : Instance :=
  ⟨0, .trueType ⟨[], none, "A"⟩⟩

/-- A load that fails and one that is interrupted, one that succeeds, and what is found then. -/
def calls : List (CacheCall FontKey Instance) :=
  [.getOrLoad (keyOf "d//a.pfb") .failed, .getOrLoad (keyOf "d/a.pfb") .panicked, .count,
    .getOrLoad (keyOf "d/./a.pfb") (.loaded held), .getOrLoad (keyOf "d//a.pfb") .failed,
    .get (keyOf "./d/a.pfb"), .count]

end Specimen

theorem acts_as_map_specimen :
    Specimen.keyOf "d//a.pfb" = Specimen.keyOf "d/./a.pfb" ∧
      Specimen.keyOf "./d/a.pfb" ≠ Specimen.keyOf "d//a.pfb" ∧
      (run .holdSlot .empty Specimen.calls).2 =
        [.came (.ran .failed), .came (.ran .panicked), .counted 0,
          .came (.ran (.loaded Specimen.held)), .came (.held Specimen.held), .found none,
          .counted 1] ∧
      (run .lookThenStore .empty Specimen.calls).2 = (run .holdSlot .empty Specimen.calls).2 ∧
      (run .holdSlot
          (perform .holdSlot .empty (.getOrLoad (Specimen.keyOf "d/a.pfb") .panicked)).1
          Specimen.calls).2 =
        (run .holdSlot .empty Specimen.calls).2 := by
  rcases acts_as_map_by_key with ⟨acts, agree, -, -⟩
  refine ⟨by decide, by decide, by decide +kernel, (agree Specimen.calls).1, ?_⟩
  exact (acts .holdSlot).unnoticed [] _ .panicked Specimen.calls rfl

end FontCache

end FontCatalog
