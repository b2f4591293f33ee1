import FontCatalog.Sfnt.NameTable

/-!
# Names of the best rank

A record offers a name if it has the number of the name and an encoding that is known, if its string
lies inside the strings of the table, and if there is something left of its text after trimming. The
loop over the records keeps the first offer of the best rank so far. So the name of a font is the
first offer of the best rank of all; records that offer nothing do not count, and neither does the
order of records with different ranks.
-/

namespace FontCatalog.Sfnt

namespace NameRecord

/-- The ranks of the encodings that are known. -/
inductive Ranks (record : NameRecord) : Nat → Prop where
  | macEnglish (platform : record.platform = 1) (encoding : record.encoding = 0)
      (language : record.language = 0) : Ranks record 0
  | windowsEnglish (platform : record.platform = 3) (encoding : record.encoding = 1)
      (language : record.language = 0x0409) : Ranks record 1
  | otherMac (platform : record.platform = 1) (encoding : record.encoding = 0)
      (language : record.language ≠ 0) : Ranks record 2
  | unicode (platform : record.platform = 0) : Ranks record 2
  | otherWindows (platform : record.platform = 3)
      (encoding : record.encoding = 0 ∨ record.encoding = 1 ∨ record.encoding = 10)
      (other : ¬(record.encoding = 1 ∧ record.language = 0x0409)) : Ranks record 2

/-- The record offers a text of some rank for a name. -/
structure Offers (record : NameRecord) (strings : Bytes) (nameId : NameId) (rank : Nat)
    (text : List Char) : Prop where
  nameId_eq : record.nameId = nameId
  ranks : record.Ranks rank
  inside : record.offset + record.length ≤ strings.length
  text_eq : text = Text.trim
    (if record.platform = 1 then
      Text.MacRoman.decode ((strings.drop record.offset).take record.length)
    else Text.Utf16.decode ((strings.drop record.offset).take record.length))
  notBlank : text ≠ []

variable {record : NameRecord} {strings : Bytes} {nameId : NameId} {rank otherRank : Nat}
  {text otherText : List Char}

theorem rank?_eq_some_iff : record.rank? = some rank ↔ record.Ranks rank := by
  constructor
  · intro isRank
    unfold rank? at isRank
    split at isRank
    · rename_i mac
      split at isRank
      · rename_i english
        cases isRank
        exact .macEnglish mac.1 mac.2 english
      · rename_i other
        cases isRank
        exact .otherMac mac.1 mac.2 other
    · split at isRank
      · rename_i windows
        cases isRank
        exact .windowsEnglish windows.1 windows.2.1 windows.2.2
      · rename_i notEnglish
        split at isRank
        · rename_i unicode
          cases isRank
          exact .unicode unicode
        · split at isRank
          · rename_i windows
            cases isRank
            refine .otherWindows windows.1 windows.2 ?_
            intro english
            exact notEnglish ⟨windows.1, english.1, english.2⟩
          · cases isRank
  · intro ranks
    cases ranks with
    | macEnglish platform encoding language => simp [rank?, platform, encoding, language]
    | windowsEnglish platform encoding language => simp [rank?, platform, encoding, language]
    | otherMac platform encoding language => simp [rank?, platform, encoding, language]
    | unicode platform => simp [rank?, platform]
    | otherWindows platform encoding other =>
        have notEnglish : ¬(record.platform = 3 ∧ record.encoding = 1 ∧
            record.language = 0x0409) := by
          intro english
          exact other english.2
        have notMac : ¬(record.platform = 1 ∧ record.encoding = 0) := by omega
        have notUnicode : record.platform ≠ 0 := by omega
        unfold rank?
        rw [if_neg notMac, if_neg notEnglish, if_neg notUnicode, if_pos ⟨platform, encoding⟩]

theorem Ranks.unique (left : record.Ranks rank) (right : record.Ranks otherRank) :
    rank = otherRank := by
  rw [← rank?_eq_some_iff] at left right
  exact Option.some.inj (left.symm.trans right)

theorem Offers.unique (left : record.Offers strings nameId rank text)
    (right : record.Offers strings nameId otherRank otherText) :
    rank = otherRank ∧ text = otherText :=
  ⟨left.ranks.unique right.ranks, left.text_eq.trans right.text_eq.symm⟩

/-- Which records offer a text, in terms of what the loop asks of them. -/
theorem offers_iff :
    record.Offers strings nameId rank text ↔
      record.nameId = nameId ∧ record.rank? = some rank ∧
        ∃ raw, record.text? strings = some raw ∧ text = Text.trim raw ∧ text ≠ [] := by
  constructor
  · intro offers
    refine ⟨offers.nameId_eq, rank?_eq_some_iff.mpr offers.ranks, _, ?_, offers.text_eq,
      offers.notBlank⟩
    simp [text?, Bytes.slice?, offers.inside]
  · rintro ⟨sameName, isRank, raw, isText, trimmed, notBlank⟩
    simp only [text?, Bytes.slice?, Option.bind_eq_bind, Option.bind_eq_some_iff,
      Option.pure_def] at isText
    rcases isText with ⟨bytes, isSlice, isRaw⟩
    split at isSlice
    · rename_i inside
      cases isSlice
      cases isRaw
      exact ⟨sameName, rank?_eq_some_iff.mp isRank, inside, trimmed, notBlank⟩
    · cases isSlice

end NameRecord

namespace NameTable

open NameRecord

variable {strings : Bytes} {nameId : NameId} {records others : List NameRecord}
  {best : Option (Nat × List Char)} {record : NameRecord} {rank : Nat} {text : List Char}

/-! ## One more record -/

/-- Either the record offers nothing, or the choice so far is as good, or the choice is now what the
record offers. -/
theorem choose_cases (strings : Bytes) (nameId : NameId) (best : Option (Nat × List Char))
    (record : NameRecord) :
    (choose strings nameId best record = best ∧
      ∀ rank text, record.Offers strings nameId rank text →
        ∃ held, best = some held ∧ held.1 ≤ rank) ∨
    ∃ rank text, record.Offers strings nameId rank text ∧
      choose strings nameId best record = some (rank, text) ∧
      ∀ held, best = some held → rank < held.1 := by
  unfold choose
  split
  · rename_i otherName
    exact Or.inl ⟨rfl, fun rank text offers => absurd offers.nameId_eq otherName⟩
  · rename_i sameName
    have isName : record.nameId = nameId := Decidable.not_not.mp sameName
    split
    · rename_i unranked
      refine Or.inl ⟨rfl, ?_⟩
      intro rank text offers
      cases unranked.symm.trans (offers_iff.mp offers).2.1
    · rename_i rank isRank
      split
      · rename_i good
        refine Or.inl ⟨rfl, ?_⟩
        intro otherRank text offers
        cases isRank.symm.trans (offers_iff.mp offers).2.1
        cases best with
        | none => cases good
        | some held => exact ⟨held, rfl, of_decide_eq_true good⟩
      · rename_i worse
        have improves : ∀ held, best = some held → rank < held.1 := by
          rintro held rfl
          simpa using worse
        split
        · rename_i outside
          refine Or.inl ⟨rfl, ?_⟩
          intro otherRank text offers
          rcases (offers_iff.mp offers).2.2 with ⟨raw, isText, -⟩
          cases outside.symm.trans isText
        · rename_i raw isText
          split
          · rename_i blank
            refine Or.inl ⟨rfl, ?_⟩
            intro otherRank text offers
            rcases (offers_iff.mp offers).2.2 with ⟨_, sameText, rfl, notBlank⟩
            cases isText.symm.trans sameText
            exact absurd blank notBlank
          · rename_i notBlank
            have offers : record.Offers strings nameId rank (Text.trim raw) :=
              offers_iff.mpr ⟨isName, isRank, raw, isText, rfl, notBlank⟩
            exact Or.inr ⟨rank, Text.trim raw, offers, rfl, improves⟩

/-! ## The choice from all records -/

/-- The choice is the first offer of the best rank, or there is none. -/
inductive Chosen (strings : Bytes) (nameId : NameId) :
    List NameRecord → Option (Nat × List Char) → Prop where
  | nothing {records : List NameRecord}
      (blank : ∀ record ∈ records, ∀ rank text, ¬record.Offers strings nameId rank text) :
      Chosen strings nameId records none
  | first {before after : List NameRecord} {record : NameRecord} {rank : Nat} {text : List Char}
      (offers : record.Offers strings nameId rank text)
      (worse : ∀ other ∈ before, ∀ otherRank otherText,
        other.Offers strings nameId otherRank otherText → rank < otherRank)
      (noBetter : ∀ other ∈ after, ∀ otherRank otherText,
        other.Offers strings nameId otherRank otherText → rank ≤ otherRank) :
      Chosen strings nameId (before ++ record :: after) (some (rank, text))

namespace Chosen

/-- The rank of the choice is the best one. -/
theorem le {other : NameRecord} {otherRank : Nat} {otherText : List Char}
    (chosen : Chosen strings nameId records (some (rank, text))) (inside : other ∈ records)
    (offers : other.Offers strings nameId otherRank otherText) : rank ≤ otherRank := by
  cases chosen with
  | first offersFirst worse noBetter =>
      rcases List.mem_append.mp inside with isBefore | rest
      · exact Nat.le_of_lt (worse other isBefore otherRank otherText offers)
      · rcases List.mem_cons.mp rest with rfl | isAfter
        · exact Nat.le_of_eq (offersFirst.unique offers).1
        · exact noBetter other isAfter otherRank otherText offers

theorem choose (chosen : Chosen strings nameId records best) (record : NameRecord) :
    Chosen strings nameId (records ++ [record]) (choose strings nameId best record) := by
  rcases choose_cases strings nameId best record with
    ⟨isBest, noBetter⟩ | ⟨rank, text, offers, isChoice, improves⟩
  · rw [isBest]
    cases chosen with
    | nothing blank =>
        apply Chosen.nothing
        intro other inside rank text offers
        rcases List.mem_append.mp inside with before | isLast
        · exact blank other before rank text offers
        · cases List.mem_singleton.mp isLast
          rcases noBetter rank text offers with ⟨held, isHeld, -⟩
          cases isHeld
    | first offers worse notBetter =>
        rw [List.append_assoc, List.cons_append]
        apply Chosen.first offers worse
        intro other inside otherRank otherText otherOffers
        rcases List.mem_append.mp inside with after | isLast
        · exact notBetter other after otherRank otherText otherOffers
        · cases List.mem_singleton.mp isLast
          rcases noBetter otherRank otherText otherOffers with ⟨held, isHeld, le⟩
          cases isHeld
          exact le
  · rw [isChoice]
    apply Chosen.first offers
    · intro other inside otherRank otherText otherOffers
      cases best with
      | none =>
          cases chosen with
          | nothing blank => exact absurd otherOffers (blank other inside _ _)
      | some held =>
          exact Nat.lt_of_lt_of_le (improves held rfl) (chosen.le inside otherOffers)
    · intro other inside
      cases inside

/-- What the loop has chosen from the records that it has passed is carried on over the rest. -/
theorem foldl (chosen : Chosen strings nameId records best) (rest : List NameRecord) :
    Chosen strings nameId (records ++ rest)
      (rest.foldl (NameTable.choose strings nameId) best) := by
  induction rest generalizing records best with
  | nil => simpa using chosen
  | cons record rest ih =>
      have next := ih (chosen.choose record)
      rw [List.append_assoc, List.singleton_append] at next
      exact next

theorem ofRecords (strings : Bytes) (nameId : NameId) (records : List NameRecord) :
    Chosen strings nameId records (records.foldl (NameTable.choose strings nameId) none) := by
  have start : Chosen strings nameId [] none := .nothing (by simp)
  exact start.foldl records

theorem unique {other : Option (Nat × List Char)} (left : Chosen strings nameId records best)
    (right : Chosen strings nameId records other) : best = other := by
  generalize isRecords : records = same at right
  cases left with
  | nothing blank =>
      cases right with
      | nothing _ => rfl
      | first offers worse noBetter =>
          subst isRecords
          exact absurd offers (blank _ (by simp) _ _)
  | @first before after record rank text offers worse noBetter =>
      cases right with
      | nothing blank =>
          subst isRecords
          exact absurd offers (blank record (by simp) rank text)
      | @first otherBefore otherAfter otherRecord otherRank otherText otherOffers otherWorse
          otherNoBetter =>
          -- Of two different places, the first would be better than the second and no worse.
          rcases List.append_eq_append_iff.mp isRecords with
            ⟨between, rfl, isRest⟩ | ⟨between, rfl, isRest⟩
          · rcases List.cons_eq_append_iff.mp isRest with ⟨rfl, isCons⟩ | ⟨others, rfl, rfl⟩
            · cases isCons
              rcases offers.unique otherOffers with ⟨rfl, rfl⟩
              rfl
            · have less := otherWorse record (by simp) rank text offers
              have notLess := noBetter otherRecord (by simp) otherRank otherText otherOffers
              omega
          · rcases List.cons_eq_append_iff.mp isRest with ⟨rfl, isCons⟩ | ⟨others, rfl, rfl⟩
            · cases isCons
              rcases offers.unique otherOffers with ⟨rfl, rfl⟩
              rfl
            · have less := worse otherRecord (by simp) otherRank otherText otherOffers
              have notLess := otherNoBetter record (by simp) rank text offers
              omega

/-- Records of different ranks may change places. -/
theorem reorder (chosen : Chosen strings nameId records best)
    (sameRanks : ∀ rank, others.filter (·.rank? = some rank) =
      records.filter (·.rank? = some rank)) : Chosen strings nameId others best := by
  have back {other : NameRecord} {rank : Nat} {text : List Char} (inside : other ∈ others)
      (offers : other.Offers strings nameId rank text) : other ∈ records := by
    have isRank := (offers_iff.mp offers).2.1
    have filtered : other ∈ others.filter (·.rank? = some rank) := by
      simpa [isRank] using inside
    rw [sameRanks rank] at filtered
    exact (List.mem_filter.mp filtered).1
  cases chosen with
  | nothing blank =>
      apply Chosen.nothing
      intro other inside rank text offers
      exact blank other (back inside offers) rank text offers
  | @first before after record rank text offers worse noBetter =>
      have chosen : Chosen strings nameId (before ++ record :: after) (some (rank, text)) :=
        .first offers worse noBetter
      have isRank := (offers_iff.mp offers).2.1
      have filtered := sameRanks rank
      rw [List.filter_append, List.filter_cons_of_pos (by simpa using isRank)] at filtered
      rcases List.filter_eq_append_iff.mp filtered with ⟨front, rest, rfl, isFront, isRest⟩
      rcases List.filter_eq_cons_iff.mp isRest with ⟨skipped, behind, rfl, skips, -, -⟩
      rw [← List.append_assoc]
      apply Chosen.first offers
      · intro other inside otherRank otherText otherOffers
        rw [List.mem_append] at inside
        apply Nat.lt_of_le_of_ne (chosen.le (back _ otherOffers) otherOffers)
        · rintro rfl
          have sameRank := (offers_iff.mp otherOffers).2.1
          rcases inside with inFront | inSkipped
          · have kept : other ∈ front.filter (·.rank? = some rank) := by
              simpa [sameRank] using inFront
            rw [isFront] at kept
            have less := worse other (List.mem_filter.mp kept).1 rank otherText otherOffers
            omega
          · exact skips other inSkipped (by simpa using sameRank)
        · simp only [List.mem_append, List.mem_cons]
          exact inside.imp_right Or.inl
      · intro other inside otherRank otherText otherOffers
        apply chosen.le (back _ otherOffers) otherOffers
        simp [inside]

end Chosen

/-- The loop comes to its choice, and to no other. -/
theorem foldl_choose_eq_iff :
    records.foldl (choose strings nameId) none = best ↔ Chosen strings nameId records best := by
  constructor
  · rintro rfl
    exact .ofRecords strings nameId records
  · intro chosen
    exact (Chosen.ofRecords strings nameId records).unique chosen

/-- A name for the Macintosh is better than an earlier one for Windows. -/
example :
    name? ⟨[⟨3, 1, 0x0409, 6, 2, 0⟩, ⟨1, 0, 0, 6, 1, 2⟩], [0x00, 0x57, 0x4D]⟩ .postscript =
      some "M" := by
  decide

/-- A record that offers nothing may be left out. -/
theorem foldl_choose_of_blank {before after : List NameRecord}
    (blank : ∀ rank text, ¬record.Offers strings nameId rank text) :
    (before ++ record :: after).foldl (choose strings nameId) best =
      (before ++ after).foldl (choose strings nameId) best := by
  rw [List.foldl_append, List.foldl_cons, List.foldl_append]
  generalize before.foldl (choose strings nameId) best = held
  rcases choose_cases strings nameId held record with ⟨same, -⟩ | ⟨rank, text, offers, -⟩
  · rw [same]
  · exact absurd offers (blank rank text)

end NameTable

namespace Font

open NameRecord

/-- The name of a font is the first offer of the best rank. -/
structure NamesByRank (font : Font) (nameId : NameId) : Prop where
  name?_eq_none_iff : font.name? nameId = none ↔
    ∀ table, font.nameTable? = some table → ∀ record ∈ table.records, ∀ rank text,
      ¬record.Offers table.strings nameId rank text
  name?_eq_some_iff : ∀ name, font.name? nameId = some name ↔
    ∃ table before record after rank, font.nameTable? = some table ∧
      table.records = before ++ record :: after ∧
      record.Offers table.strings nameId rank name.toList ∧
      (∀ other ∈ before, ∀ otherRank text,
        other.Offers table.strings nameId otherRank text → rank < otherRank) ∧
      ∀ other ∈ after, ∀ otherRank text,
        other.Offers table.strings nameId otherRank text → rank ≤ otherRank
  /-- A record that offers nothing does not count, wherever it stands. -/
  ignores : ∀ {other : Font} {strings : Bytes} {before after : List NameRecord}
      {record : NameRecord},
    font.nameTable? = some ⟨before ++ record :: after, strings⟩ →
      other.nameTable? = some ⟨before ++ after, strings⟩ →
      (∀ rank text, ¬record.Offers strings nameId rank text) →
      font.name? nameId = other.name? nameId
  /-- The order of records does not count, as long as those of one rank keep theirs. -/
  reorders : ∀ {other : Font} {strings : Bytes} {records otherRecords : List NameRecord},
    font.nameTable? = some ⟨records, strings⟩ → other.nameTable? = some ⟨otherRecords, strings⟩ →
      (∀ rank, otherRecords.filter (·.rank? = some rank) =
        records.filter (·.rank? = some rank)) →
      other.name? nameId = font.name? nameId

variable {font : Font} {nameId : NameId} {table : NameTable}

theorem name?_of_nameTable? (isTable : font.nameTable? = some table) :
    font.name? nameId =
      (table.records.foldl (NameTable.choose table.strings nameId) none).map
        fun (_, text) => String.ofList text := by
  simp only [name?, isTable, Option.bind_eq_bind, Option.bind_some, NameTable.name?]

theorem namesByRank (font : Font) (nameId : NameId) : font.NamesByRank nameId where
  name?_eq_none_iff := by
    cases isTable : font.nameTable? with
    | none => simp [name?, isTable]
    | some table =>
        rcases table with ⟨records, strings⟩
        rw [name?_of_nameTable? isTable, Option.map_eq_none_iff, NameTable.foldl_choose_eq_iff]
        constructor
        · rintro chosen _ ⟨⟩
          cases chosen with
          | nothing blank => exact blank
        · intro blank
          exact .nothing (blank _ rfl)
  name?_eq_some_iff := by
    intro name
    cases isTable : font.nameTable? with
    | none => simp [name?, isTable]
    | some table =>
        rcases table with ⟨records, strings⟩
        rw [name?_of_nameTable? isTable, Option.map_eq_some_iff]
        constructor
        · rintro ⟨⟨rank, text⟩, isChoice, rfl⟩
          cases NameTable.foldl_choose_eq_iff.mp isChoice with
          | first offers worse noBetter =>
              refine ⟨_, _, _, _, rank, rfl, rfl, ?_, worse, noBetter⟩
              rw [String.toList_ofList]
              exact offers
        · rintro ⟨_, before, record, after, rank, ⟨⟩, isRecords, offers, worse, noBetter⟩
          refine ⟨(rank, name.toList), ?_, String.ofList_toList⟩
          rw [NameTable.foldl_choose_eq_iff]
          subst isRecords
          exact .first offers worse noBetter
  ignores := by
    intro other strings before after record isTable isOther blank
    rw [name?_of_nameTable? isTable, name?_of_nameTable? isOther]
    exact congrArg _ (NameTable.foldl_choose_of_blank blank)
  reorders := by
    intro other strings records otherRecords isTable isOther sameRanks
    rw [name?_of_nameTable? isTable, name?_of_nameTable? isOther]
    have chosen := NameTable.Chosen.ofRecords strings nameId records
    exact congrArg _ (NameTable.foldl_choose_eq_iff.mpr (chosen.reorder sameRanks))

end Font

end FontCatalog.Sfnt
