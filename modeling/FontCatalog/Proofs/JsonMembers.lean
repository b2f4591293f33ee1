import FontCatalog.Proofs.JsonReaders

/-!
# Members that a draft takes in

An object is read into a draft, which takes in one member after another in whatever order they
stand. A draft has each field once at most: a member under the name of a field that it lacks is read
as that field, one under the name of a field that it has is refused, and one under any other name is
passed over. So what a draft has in the end is decided by the members alone.
-/

namespace FontCatalog.Json

variable {Field Draft : Type} {input rest others : List Char} {members : List Member}
  {fields : List Field} {last : Blanks} {isFirst : Bool} {fuel : Nat}

/-! ## Fields among members -/

/-- The members give the fields in this order, each once and with a suitable value. There may be
members under other names among them. -/
inductive Gives (name : Field → List Char) (suits : Field → List Char → Prop) :
    List Member → List Field → Prop where
  | nil : Gives name suits [] []
  | field {field : Field} {member : Member} {members : List Member} {fields : List Field}
      (named : Spells member.key (name field)) (suitable : suits field member.value)
      (isNew : field ∉ fields) (others : Gives name suits members fields) :
      Gives name suits (member :: members) (field :: fields)
  | further {key : List Char} {member : Member} {members : List Member} {fields : List Field}
      (named : Spells member.key key) (isFurther : ∀ field, key ≠ name field)
      (others : Gives name suits members fields) : Gives name suits (member :: members) fields

/-- A field that has to be there is missing, or a field stands there twice. -/
inductive Miscounts (name : Field → List Char) (required : Field → Prop)
    (members : List Member) : Prop where
  | missing {field : Field} (isRequired : required field)
      (isMissing : ∀ member ∈ members, ¬Spells member.key (name field))
  | twice {field : Field} {first second : Member} (both : [first, second].Sublist members)
      (firstNamed : Spells first.key (name field)) (secondNamed : Spells second.key (name field))

namespace Gives

variable {name : Field → List Char} {suits : Field → List Char → Prop} {field : Field}
  {member : Member}

theorem exists_member (gives : Gives name suits members fields) (given : field ∈ fields) :
    ∃ member ∈ members, Spells member.key (name field) := by
  induction gives with
  | nil => cases given
  | field named _ _ _ ih =>
      rcases List.mem_cons.mp given with rfl | later
      · exact ⟨_, List.mem_cons_self, named⟩
      · rcases ih later with ⟨member, inside, isNamed⟩
        exact ⟨member, List.mem_cons_of_mem _ inside, isNamed⟩
  | further _ _ _ ih =>
      rcases ih given with ⟨member, inside, isNamed⟩
      exact ⟨member, List.mem_cons_of_mem _ inside, isNamed⟩

/-- A member under the name of a field gives that field. -/
theorem suits_of_mem (gives : Gives name suits members fields) (inside : member ∈ members)
    (injective : Function.Injective name) (named : Spells member.key (name field)) :
    field ∈ fields ∧ suits field member.value := by
  induction gives with
  | nil => cases inside
  | field isNamed suitable _ _ ih =>
      rcases List.mem_cons.mp inside with rfl | later
      · cases injective (named.unique isNamed)
        exact ⟨List.mem_cons_self, suitable⟩
      · rcases ih later with ⟨given, isSuitable⟩
        exact ⟨List.mem_cons_of_mem _ given, isSuitable⟩
  | further isNamed isFurther _ ih =>
      rcases List.mem_cons.mp inside with rfl | later
      · exact absurd (isNamed.unique named) (isFurther field)
      · exact ih later

/-- No field is given twice. -/
theorem not_twice (gives : Gives name suits members fields) (injective : Function.Injective name)
    {first second : Member} (both : [first, second].Sublist members)
    (firstNamed : Spells first.key (name field)) (secondNamed : Spells second.key (name field)) :
    False := by
  induction gives with
  | nil => cases both
  | field isNamed _ isNew others ih =>
      cases both with
      | cons _ later => exact ih later
      | cons_cons _ later =>
          cases injective (firstNamed.unique isNamed)
          have inside := List.singleton_sublist.mp later
          exact isNew (others.suits_of_mem inside injective secondNamed).1
  | further isNamed isFurther _ ih =>
      cases both with
      | cons _ later => exact ih later
      | cons_cons _ later => exact isFurther field (isNamed.unique firstNamed)

theorem not_miscounts (gives : Gives name suits members fields)
    (injective : Function.Injective name) {required : Field → Prop}
    (complete : ∀ field, required field → field ∈ fields) : ¬Miscounts name required members := by
  intro miscounts
  cases miscounts with
  | missing isRequired isMissing =>
      rcases gives.exists_member (complete _ isRequired) with ⟨member, inside, named⟩
      exact isMissing member inside named
  | twice both firstNamed secondNamed =>
      exact gives.not_twice injective both firstNamed secondNamed

/-- Members that are made for fields give these fields. -/
theorem map (distinct : fields.Nodup) (toMember : Field → Member)
    (named : ∀ field, Spells (toMember field).key (name field))
    (suitable : ∀ field, suits field (toMember field).value) :
    Gives name suits (fields.map toMember) fields := by
  induction fields with
  | nil => exact .nil
  | cons field fields ih =>
      rw [List.nodup_cons] at distinct
      exact .field (named field) (suitable field) distinct.1 (ih distinct.2)

end Gives

/-! ## Drafts -/

/-- What drafts have in common, whatever their fields are. -/
structure Drafting (Field Draft : Type) where
  name : Field → List Char
  /-- The field has not been read. -/
  lacks : Draft → Field → Prop
  readMember : Draft → List Char → Reader Draft
  readField : Field → Draft → Reader Draft
  name_injective : Function.Injective name
  readMember_field : ∀ {field : Field} {draft : Draft} {input opened : List Char},
    lacks draft field → readColon input = .ok opened →
      readMember draft (name field) input = readField field draft opened
  readMember_twice : ∀ {field : Field} {draft : Draft} {input : List Char}
    {result : Draft × List Char}, ¬lacks draft field →
      readMember draft (name field) input ≠ .ok result
  readMember_further : ∀ {draft : Draft} {key input : List Char}, (∀ field, key ≠ name field) →
    readMember draft key input = skipMember input >>= fun rest => .ok (draft, rest)
  takesValue : ∀ (field : Field) (draft : Draft), TakesValue (readField field draft)
  lacks_iff : ∀ {field : Field} {draft next : Draft} {input rest : List Char},
    readField field draft input = .ok (next, rest) →
      ∀ other, lacks next other ↔ lacks draft other ∧ other ≠ field

namespace Drafting

variable {drafting : Drafting Field Draft} {draft final : Draft}

/-- The value is accepted for the field at some place. -/
def Accepts (drafting : Drafting Field Draft) (field : Field) (value : List Char) : Prop :=
  ∃ (draft next : Draft) (input rest others : List Char), Follows rest ∧
    skipBlanks input = value ++ rest ∧ drafting.readField field draft input = .ok (next, others)

theorem skipMember_eq {member : Member} (isValue : IsValue member.value) (members : List Member)
    (last : Blanks) (rest : List Char) :
    skipMember (colonLeft member (membersLeft false members last rest)) =
      .ok (member.item.after.chars ++ membersLeft false members last rest) := by
  have follows := (follows_membersLeft members last rest).append_blanks member.item.after
  have isSkipped := skipValue_eq isValue follows (isValue.skipBlanks_item _)
  simp only [skipMember, colonLeft, readColon_append, bind, Except.bind, isSkipped]

/-- A member under the name of a field that the draft lacks is read as that field. -/
theorem readMember_colonLeft {field : Field} (lacking : drafting.lacks draft field)
    (member : Member) (others : List Char) :
    drafting.readMember draft (drafting.name field) (colonLeft member others) =
      drafting.readField field draft (member.item.chars ++ others) :=
  drafting.readMember_field lacking (readColon_append member.afterKey _)

/-- After one member the reader goes on with the draft it has then. -/
theorem readMembers_cons {member : Member} {key : List Char} {next : Draft}
    (spells : Spells member.key key)
    (opened : skipBlanks input = skipBlanks (membersLeft isFirst (member :: members) last rest))
    (isRead : drafting.readMember draft key
      (colonLeft member (membersLeft false members last rest)) = .ok (next, others)) :
    readMembers drafting.readMember (fuel + 1) isFirst draft input =
      readMembers drafting.readMember fuel false next others := by
  rw [readMembers, readKey?_cons opened, spells.readString_eq]
  simp only [bind, Except.bind, isRead]

/-- A field that the draft lacks is still lacking after another one was read. -/
theorem lacks_of_not_mem {field : Field} {next : Draft}
    (isRead : drafting.readField field draft input = .ok (next, others))
    (lacking : ∀ other ∈ fields, drafting.lacks draft other) (isNew : field ∉ fields) :
    ∀ other ∈ fields, drafting.lacks next other := by
  intro other isOther
  rw [drafting.lacks_iff isRead]
  refine ⟨lacking other isOther, ?_⟩
  rintro rfl
  exact isNew isOther

/-- The members that are given are read, in whichever order they stand. What the draft holds in the
end is what `holds` says of every field that is given. -/
theorem readMembers_of_gives {suits : Field → List Char → Prop} {holds : Draft → Field → Prop}
    (reads : ∀ {field draft value}, suits field value → drafting.lacks draft field →
      ∃ next, ReadsAs (drafting.readField field draft) value next ∧ holds next field ∧
        ∀ other, holds draft other → holds next other)
    (gives : Gives drafting.name suits members fields) (isObject : IsObject members)
    (lacking : ∀ field ∈ fields, drafting.lacks draft field) (enough : members.length < fuel)
    (opened : skipBlanks input = skipBlanks (membersLeft isFirst members last rest)) :
    ∃ final, readMembers drafting.readMember fuel isFirst draft input =
        .ok (final, '\x7d' :: rest) ∧
      (∀ field, field ∈ fields ∨ holds draft field → holds final field) ∧
      ∀ field, drafting.lacks final field ↔ drafting.lacks draft field ∧ field ∉ fields := by
  induction gives generalizing fuel isFirst draft input with
  | nil =>
      cases fuel with
      | zero => cases enough
      | succ fuel =>
          refine ⟨draft, ?_, by simp, by simp⟩
          rw [readMembers, readKey?_nil opened]
          rfl
  | @field field member members fields named suitable isNew others ih =>
      cases fuel with
      | zero => cases enough
      | succ fuel =>
          rw [isObject_cons] at isObject
          rw [List.forall_mem_cons] at lacking
          rcases reads suitable lacking.1 with ⟨next, readsField, holdsField, keeps⟩
          have follows := (follows_membersLeft members last rest).append_blanks member.item.after
          have isRead := readsField (isObject.1.2.skipBlanks_item _) follows
          have lacks_next := drafting.lacks_iff isRead
          have stillLacking := lacks_of_not_mem isRead lacking.2 isNew
          rw [← readMember_colonLeft lacking.1] at isRead
          rcases ih isObject.2 stillLacking (Nat.lt_of_succ_lt_succ enough)
            (skipBlanks_append member.item.after (membersLeft false members last rest)) with
            ⟨final, isFinal, holdsFinal, lacks_final⟩
          refine ⟨final, (readMembers_cons named opened isRead).trans isFinal, ?_, ?_⟩
          · rintro other (given | held)
            · rcases List.mem_cons.mp given with rfl | later
              · exact holdsFinal other (Or.inr holdsField)
              · exact holdsFinal other (Or.inl later)
            · exact holdsFinal other (Or.inr (keeps other held))
          · intro other
            rw [lacks_final, lacks_next, List.mem_cons, not_or, and_assoc]
  | @further key member members fields named isFurther others ih =>
      cases fuel with
      | zero => cases enough
      | succ fuel =>
          rw [isObject_cons] at isObject
          rcases ih isObject.2 lacking (Nat.lt_of_succ_lt_succ enough)
            (skipBlanks_append member.item.after (membersLeft false members last rest)) with
            ⟨final, isFinal, isHeld⟩
          have isRead : drafting.readMember draft key
              (colonLeft member (membersLeft false members last rest)) =
                .ok (draft, member.item.after.chars ++ membersLeft false members last rest) := by
            rw [drafting.readMember_further isFurther, skipMember_eq isObject.1.2]
            rfl
          exact ⟨final, (readMembers_cons named opened isRead).trans isFinal, isHeld⟩

/-- What one member does to a draft that takes it in. -/
theorem cases_of_readMember {member : Member} {key : List Char} {next : Draft}
    (isValue : IsValue member.value)
    (isRead : drafting.readMember draft key
      (colonLeft member (membersLeft false members last rest)) = .ok (next, others)) :
    others = member.item.after.chars ++ membersLeft false members last rest ∧
      ((∃ field, key = drafting.name field ∧ drafting.lacks draft field ∧
          drafting.Accepts field member.value ∧
          ∀ other, drafting.lacks next other ↔ drafting.lacks draft other ∧ other ≠ field) ∨
        (∀ field, key ≠ drafting.name field) ∧ next = draft) := by
  by_cases isField : ∃ field, key = drafting.name field
  · rcases isField with ⟨field, rfl⟩
    by_cases lacking : drafting.lacks draft field
    · rw [readMember_colonLeft lacking] at isRead
      have follows := (follows_membersLeft members last rest).append_blanks member.item.after
      have opened := isValue.skipBlanks_item (membersLeft false members last rest)
      have isOthers := drafting.takesValue field draft isValue follows opened isRead
      exact ⟨isOthers, Or.inl ⟨field, rfl, lacking,
        ⟨draft, next, _, _, others, follows, opened, isRead⟩, drafting.lacks_iff isRead⟩⟩
    · exact absurd isRead (drafting.readMember_twice lacking)
  · have isFurther : ∀ field, key ≠ drafting.name field := not_exists.mp isField
    rw [drafting.readMember_further isFurther, skipMember_eq isValue] at isRead
    cases isRead
    exact ⟨rfl, Or.inr ⟨isFurther, rfl⟩⟩

/-- Members that are read give every field once at most, with a value that is accepted for it. -/
theorem gives_of_readMembers (isObject : IsObject members)
    (opened : skipBlanks input = skipBlanks (membersLeft isFirst members last rest))
    (isRead : readMembers drafting.readMember fuel isFirst draft input = .ok (final, others)) :
    others = '\x7d' :: rest ∧ ∃ fields, Gives drafting.name drafting.Accepts members fields ∧
      (∀ field ∈ fields, drafting.lacks draft field) ∧
      ∀ field, drafting.lacks final field ↔ drafting.lacks draft field ∧ field ∉ fields := by
  induction members generalizing fuel isFirst draft input with
  | nil =>
      cases fuel with
      | zero => cases isRead
      | succ fuel =>
          rw [readMembers, readKey?_nil opened] at isRead
          cases isRead
          exact ⟨rfl, [], .nil, by simp, by simp⟩
  | cons member members ih =>
      cases fuel with
      | zero => cases isRead
      | succ fuel =>
          rw [isObject_cons] at isObject
          rw [readMembers, readKey?_cons opened] at isRead
          rcases exists_of_bind isRead with ⟨⟨key?, afterKey⟩, isKey, isOthers⟩
          rcases exists_of_bind isKey with ⟨⟨key, left⟩, isString, isLeft⟩
          cases isLeft
          rcases isObject.1.1.spells_of_readString isString with ⟨named, rfl⟩
          rcases exists_of_bind isOthers with ⟨⟨next, afterMember⟩, isMember, isLater⟩
          dsimp only at isMember isLater
          rcases cases_of_readMember isObject.1.2 isMember with ⟨rfl, isStep⟩
          rcases ih isObject.2 (skipBlanks_append _ _) isLater with
            ⟨isRest, fields, gives, lacking, lacks_final⟩
          refine ⟨isRest, ?_⟩
          rcases isStep with ⟨field, rfl, lacksField, accepts, lacks_next⟩ | ⟨isFurther, rfl⟩
          · have isNew : field ∉ fields := fun given =>
              ((lacks_next field).mp (lacking field given)).2 rfl
            refine ⟨field :: fields, .field named accepts isNew gives, ?_, ?_⟩
            · rw [List.forall_mem_cons]
              exact ⟨lacksField, fun other given => ((lacks_next other).mp (lacking other given)).1⟩
            · intro other
              rw [lacks_final, lacks_next, List.mem_cons, not_or, and_assoc]
          · exact ⟨fields, .further named isFurther gives, lacking, lacks_final⟩

end Drafting

end FontCatalog.Json
