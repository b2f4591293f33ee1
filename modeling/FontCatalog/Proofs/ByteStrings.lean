import FontCatalog.Bytes
import FontCatalog.Proofs.Numerals

/-!
# Parts of byte strings

Reading back what stands between other bytes: a part by its place and length, a number, and a table
of records of one width.
-/

namespace FontCatalog.Bytes

variable {bytes part : Bytes} {start length width number : Nat}

theorem take_drop_of_eq (before after : Bytes) (isBytes : bytes = before ++ (part ++ after))
    (isStart : before.length = start) (isLength : part.length = length) :
    (bytes.drop start).take length = part := by
  subst isBytes isStart isLength
  rw [List.drop_left, List.take_left]

theorem slice?_of_eq (before after : Bytes) (isBytes : bytes = before ++ (part ++ after))
    (isStart : before.length = start) (isLength : part.length = length) :
    bytes.slice? start length = some part := by
  have inside : start + length ≤ bytes.length := by
    subst isBytes isStart isLength
    simp only [List.length_append]
    omega
  rw [slice?, if_pos inside, take_drop_of_eq before after isBytes isStart isLength]

theorem slice?_zero (part after : Bytes) : slice? (part ++ after) 0 part.length = some part :=
  slice?_of_eq [] after rfl rfl rfl

theorem numberAt?_of_eq (before after : Bytes) (fits : number < 256 ^ width)
    (isBytes : bytes = before ++ (bigEndianOf width number ++ after))
    (isStart : before.length = start) : bytes.numberAt? start width = some number := by
  have sliced := slice?_of_eq before after isBytes isStart (length_bigEndianOf width number)
  rw [numberAt?, sliced, Option.map_some, bigEndian_bigEndianOf fits]

theorem u16At?_of_eq {value : UInt16} (before after : Bytes)
    (isBytes : bytes = before ++ (bigEndianOf 2 value.toNat ++ after))
    (isStart : before.length = start) : bytes.u16At? start = some value := by
  rw [u16At?, numberAt?_of_eq before after value.toNat_lt isBytes isStart, Option.map_some,
    UInt16.ofNat_toNat]

theorem u32At?_of_eq {value : UInt32} (before after : Bytes)
    (isBytes : bytes = before ++ (bigEndianOf 4 value.toNat ++ after))
    (isStart : before.length = start) : bytes.u32At? start = some value := by
  rw [u32At?, numberAt?_of_eq before after value.toNat_lt isBytes isStart, Option.map_some,
    UInt32.ofNat_toNat]

theorem slice?_congr {left right : Bytes}
    (sameLength : left.length = right.length)
    (same : ∀ place, start ≤ place → place < start + length → left[place]? = right[place]?) :
    left.slice? start length = right.slice? start length := by
  simp only [slice?, ← sameLength]
  split
  · congr 1
    apply List.ext_getElem?
    intro index
    by_cases inside : index < length
    · rw [List.getElem?_take_of_lt inside, List.getElem?_take_of_lt inside, List.getElem?_drop,
        List.getElem?_drop]
      exact same (start + index) (by omega) (by omega)
    · rw [List.getElem?_take_eq_none (by omega), List.getElem?_take_eq_none (by omega)]
  · rfl

/-! ## Records of one width -/

theorem length_chunks (width count : Nat) (bytes : Bytes) :
    (chunks width count bytes).length = count := by
  induction count generalizing bytes with
  | zero => rfl
  | succ count ih => simp [chunks, ih]

theorem flatten_chunks (width count : Nat) (bytes : Bytes) :
    (chunks width count bytes).flatten = bytes.take (width * count) := by
  induction count generalizing bytes with
  | zero => simp [chunks]
  | succ count ih => rw [chunks, List.flatten_cons, ih, Nat.mul_succ, Nat.add_comm, List.take_add]

theorem length_of_mem_chunks {count : Nat} {chunk : Bytes}
    (fits : width * count ≤ bytes.length) (isChunk : chunk ∈ chunks width count bytes) :
    chunk.length = width := by
  induction count generalizing bytes with
  | zero => cases isChunk
  | succ count ih =>
      rw [Nat.mul_succ] at fits
      rcases List.mem_cons.mp isChunk with rfl | later
      · rw [List.length_take]
        omega
      · apply ih _ later
        rw [List.length_drop]
        omega

section Records

variable {Item : Type} {write : Item → Bytes}

theorem chunks_flatMap (items : List Item)
    (uniform : ∀ item ∈ items, (write item).length = width) (after : Bytes) :
    chunks width items.length (items.flatMap write ++ after) = items.map write := by
  induction items with
  | nil => rfl
  | cons item rest ih =>
      have isWidth := uniform item List.mem_cons_self
      have others := ih fun other isOther => uniform other (List.mem_cons_of_mem item isOther)
      rw [List.length_cons, chunks, List.flatMap_cons, List.append_assoc, List.map_cons,
        List.take_left' isWidth, List.drop_left' isWidth, others]

theorem length_flatMap_of_uniform (items : List Item)
    (uniform : ∀ item ∈ items, (write item).length = width) :
    (items.flatMap write).length = width * items.length := by
  induction items with
  | nil => rfl
  | cons item rest ih =>
      have isWidth := uniform item List.mem_cons_self
      have others := ih fun other isOther => uniform other (List.mem_cons_of_mem item isOther)
      rw [List.flatMap_cons, List.length_append, isWidth, others, List.length_cons, Nat.mul_succ,
        Nat.add_comm]

theorem table_of_eq {items : List Item} (before after : Bytes)
    (isBytes : bytes = before ++ (items.flatMap write ++ after)) (isStart : before.length = start)
    (uniform : ∀ item ∈ items, (write item).length = width) :
    bytes.table start width items.length = items.map write := by
  subst isBytes isStart
  have fits : before.length + width * items.length ≤
      (before ++ (items.flatMap write ++ after)).length := by
    rw [List.length_append, List.length_append, length_flatMap_of_uniform items uniform]
    omega
  rw [table, if_pos fits, List.drop_left, chunks_flatMap items uniform]

end Records

end FontCatalog.Bytes
