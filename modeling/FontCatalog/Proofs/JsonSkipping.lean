import FontCatalog.Proofs.JsonSyntax

/-!
# Values that are passed over

Every JSON value is passed over, however deep it is nested, and nothing after it. What encloses a
value does not matter for the steps through it, so the steps of an array or an object are those of
its parts one after another. They are at most twice as many as the characters, which is what bounds
the walk.
-/

namespace FontCatalog.Json

variable {text rest input : List Char} {fuel : Nat} {stack outer : List Enclosure}

/-- What is done at the end of a value inside the given enclosures. -/
def resume (fuel : Nat) (stack : List Enclosure) (rest : List Char) : Except Fault (List Char) :=
  if stack = [] then .ok rest else skipOn fuel .separator stack rest

/-- The text is passed over as a value, in at most twice as many steps as it has characters. -/
def Passes (text : List Char) : Prop :=
  ∃ steps ≤ 2 * text.length, ∀ {fuel : Nat} {stack : List Enclosure} {input rest : List Char},
    Follows rest → skipBlanks input = text ++ rest →
      skipOn (fuel + steps) .value stack input = resume fuel stack rest

/-! ## Single steps -/

/-- One step to the next part of a value. -/
inductive Advances :
    Due → List Enclosure → List Char → Due → List Enclosure → List Char → Prop where
  | bracket {stack : List Enclosure} {input rest : List Char}
      (opened : skipBlanks input = '[' :: rest) :
      Advances .value stack input .firstElement (.array :: stack) rest
  | brace {stack : List Enclosure} {input rest : List Char}
      (opened : skipBlanks input = '\x7b' :: rest) :
      Advances .value stack input .firstMember (.object :: stack) rest
  | firstElement {stack : List Enclosure} {input rest : List Char} {char : Char}
      (opened : skipBlanks input = char :: rest) (notEnd : char ≠ ']') :
      Advances .firstElement stack input .value stack (char :: rest)
  | firstMember {stack : List Enclosure} {input rest : List Char}
      (opened : skipBlanks input = '"' :: rest) :
      Advances .firstMember stack input .member stack ('"' :: rest)
  | arrayComma {outer : List Enclosure} {input rest : List Char}
      (opened : skipBlanks input = ',' :: rest) :
      Advances .separator (.array :: outer) input .value (.array :: outer) rest
  | objectComma {outer : List Enclosure} {input rest : List Char}
      (opened : skipBlanks input = ',' :: rest) :
      Advances .separator (.object :: outer) input .member (.object :: outer) rest
  | key {stack : List Enclosure} {input rest : List Char} {member : Member}
      (isBody : IsBody member.key) (opened : skipBlanks input = skipBlanks (member.chars ++ rest)) :
      Advances .member stack input .value stack (member.item.chars ++ rest)

/-- One step to the end of a value. -/
inductive Ends : Due → List Enclosure → List Char → List Enclosure → List Char → Prop where
  | word {stack : List Enclosure} {text input rest : List Char}
      (isWord : text = "null".toList ∨ text = "true".toList ∨ text = "false".toList)
      (opened : skipBlanks input = text ++ rest) : Ends .value stack input stack rest
  | number {stack : List Enclosure} {input rest : List Char} (numeral : Numeral)
      (follows : Follows rest) (opened : skipBlanks input = numeral.chars ++ rest) :
      Ends .value stack input stack rest
  | string {stack : List Enclosure} {body input rest : List Char} (isBody : IsBody body)
      (opened : skipBlanks input = quoted body ++ rest) : Ends .value stack input stack rest
  | elements {outer : List Enclosure} {input rest : List Char}
      (opened : skipBlanks input = ']' :: rest) :
      Ends .firstElement (.array :: outer) input outer rest
  | members {outer : List Enclosure} {input rest : List Char}
      (opened : skipBlanks input = '\x7d' :: rest) :
      Ends .firstMember (.object :: outer) input outer rest
  | array {outer : List Enclosure} {input rest : List Char}
      (opened : skipBlanks input = ']' :: rest) : Ends .separator (.array :: outer) input outer rest
  | object {outer : List Enclosure} {input rest : List Char}
      (opened : skipBlanks input = '\x7d' :: rest) :
      Ends .separator (.object :: outer) input outer rest

theorem Advances.skipOn_eq {due next : Due} {inner : List Enclosure}
    (advances : Advances due stack input next inner rest) (fuel : Nat) :
    skipOn (fuel + 1) due stack input = skipOn fuel next inner rest := by
  cases advances with
  | bracket opened | brace opened | arrayComma opened | objectComma opened =>
      simp only [skipOn, opened]
  | firstMember opened =>
      simp only [skipOn, opened]
      rfl
  | firstElement opened notEnd =>
      simp only [skipOn, opened]
      split
      · contradiction
      · rename_i isEnd
        cases isEnd
        exact absurd rfl notEnd
      · rfl
  | @key stack input rest member isBody opened =>
      rw [member.skipBlanks_append] at opened
      simp only [skipOn, opened, isBody.skipString_eq, readColon_append, bind, Except.bind]

theorem Ends.skipOn_eq {due : Due} (ends : Ends due stack input outer rest) (fuel : Nat) :
    skipOn (fuel + 1) due stack input = resume fuel outer rest := by
  cases ends with
  | word isWord opened =>
      rcases isWord with rfl | rfl | rfl
      all_goals
        simp only [skipOn, opened]
        rfl
  | number numeral follows opened =>
      have isSkipped := numeral.skipNumber_eq follows
      rcases numeral.exists_chars_eq_cons with ⟨first, others, isChars, isFirst⟩
      rw [isChars] at opened isSkipped
      simp only [List.cons_append] at opened isSkipped
      simp only [skipOn, opened]
      split
      all_goals
        rename_i isText
        cases isText
      -- The characters that are looked for first do not start a number.
      all_goals first
        | exact absurd isFirst (by decide)
        | simp only [isFirst, if_true, isSkipped]
          rfl
  | string isBody opened =>
      rw [quoted_append] at opened
      simp only [skipOn, opened, isBody.skipString_eq]
      rfl
  | elements opened | members opened | array opened | object opened =>
      simp only [skipOn, opened]
      rfl

/-! ## Values without parts -/

theorem passes_of_ends (nonempty : text ≠ [])
    (ends : ∀ {stack : List Enclosure} {input rest : List Char}, Follows rest →
      skipBlanks input = text ++ rest → Ends .value stack input stack rest) : Passes text := by
  have positive := List.length_pos_iff.mpr nonempty
  refine ⟨1, by omega, ?_⟩
  intro fuel stack input rest follows opened
  exact (ends follows opened).skipOn_eq fuel

theorem passes_word (isWord : text = "null".toList ∨ text = "true".toList ∨ text = "false".toList) :
    Passes text := by
  apply passes_of_ends
  · rcases isWord with rfl | rfl | rfl <;> decide
  · intro stack input rest _ opened
    exact .word isWord opened

theorem passes_number (numeral : Numeral) : Passes numeral.chars := by
  apply passes_of_ends
  · rcases numeral.exists_chars_eq_cons with ⟨first, others, isChars, -⟩
    simp [isChars]
  · intro stack input rest follows opened
    exact .number numeral follows opened

theorem passes_string {body : List Char} (isBody : IsBody body) : Passes (quoted body) := by
  apply passes_of_ends
  · simp [quoted]
  · intro stack input rest _ opened
    exact .string isBody opened

/-! ## Arrays and objects -/

/-- The steps from the end of an element to the end of the array. -/
theorem exists_steps_elements {items : List Item} (last : Blanks)
    (values : ∀ item ∈ items, IsValue item.value) (passes : ∀ item ∈ items, Passes item.value) :
    ∃ steps ≤ 2 * (separated false (items.map Item.chars)).length + 1,
      ∀ {fuel : Nat} {outer : List Enclosure} {input rest : List Char},
        skipBlanks input = skipBlanks (elementsLeft false items last rest) →
          skipOn (fuel + steps) .separator (.array :: outer) input = resume fuel outer rest := by
  induction items with
  | nil =>
      refine ⟨1, by omega, ?_⟩
      intro fuel outer input rest opened
      rw [skipBlanks_elementsLeft_nil] at opened
      exact (Ends.array opened).skipOn_eq fuel
  | cons item items ih =>
      rw [List.forall_mem_cons] at values passes
      rcases passes.1 with ⟨steps, enough, passesItem⟩
      rcases ih values.2 passes.2 with ⟨others, enoughOthers, passesOthers⟩
      refine ⟨others + steps + 1, ?_, ?_⟩
      · simp only [List.map_cons, separated, Item.chars, List.length_append, List.length_cons,
          Bool.false_eq_true, if_false, List.length_nil]
        omega
      · intro fuel outer input rest opened
        rw [elementsLeft_next] at opened
        have follows := follows_elementsLeft items last rest
        rw [← Nat.add_assoc, ← Nat.add_assoc, (Advances.arrayComma opened).skipOn_eq,
          passesItem (follows.append_blanks item.after) (values.1.skipBlanks_item _)]
        exact passesOthers (skipBlanks_append item.after _)

theorem passes_array {items : List Item} (last : Blanks)
    (values : ∀ item ∈ items, IsValue item.value) (passes : ∀ item ∈ items, Passes item.value) :
    Passes (arrayText items last) := by
  cases items with
  | nil =>
      refine ⟨2, ?_, ?_⟩
      · simp only [arrayText, elementsLeft, closed, List.length_cons, List.length_append]
        omega
      · intro fuel stack input rest _ opened
        rw [arrayText_append] at opened
        have isEnd : Ends .firstElement (.array :: stack) _ stack rest :=
          .elements (skipBlanks_elementsLeft_nil true last rest)
        rw [(Advances.bracket opened).skipOn_eq (fuel + 1), isEnd.skipOn_eq]
  | cons item items =>
      rw [List.forall_mem_cons] at values passes
      rcases passes.1 with ⟨steps, enough, passesItem⟩
      rcases exists_steps_elements last values.2 passes.2 with ⟨others, enoughOthers, passesOthers⟩
      rcases values.1.exists_eq_cons with ⟨first, valueRest, isValue, solid, notEnd⟩
      refine ⟨others + steps + 2, ?_, ?_⟩
      · simp only [arrayText, elementsLeft, closed, List.map_cons, separated, Item.chars,
          List.length_append, List.length_cons, if_true, List.length_nil]
        omega
      · intro fuel stack input rest _ opened
        rw [arrayText_append, elementsLeft_first] at opened
        have follows := follows_elementsLeft items last rest
        have isItem := values.1.skipBlanks_item
          (elementsLeft false items last rest)
        rw [isValue, List.cons_append] at isItem
        rw [← Nat.add_assoc, ← Nat.add_assoc, (Advances.bracket opened).skipOn_eq,
          (Advances.firstElement isItem notEnd).skipOn_eq, ← List.cons_append, ← isValue,
          passesItem (follows.append_blanks item.after) (values.1.skipBlanks_append _)]
        exact passesOthers (skipBlanks_append item.after _)

/-- The steps from the end of a member to the end of the object. -/
theorem exists_steps_members {members : List Member} (last : Blanks)
    (keys : ∀ member ∈ members, IsBody member.key)
    (values : ∀ member ∈ members, IsValue member.value)
    (passes : ∀ member ∈ members, Passes member.value) :
    ∃ steps ≤ 2 * (separated false (members.map Member.chars)).length + 1,
      ∀ {fuel : Nat} {outer : List Enclosure} {input rest : List Char},
        skipBlanks input = skipBlanks (membersLeft false members last rest) →
          skipOn (fuel + steps) .separator (.object :: outer) input = resume fuel outer rest := by
  induction members with
  | nil =>
      refine ⟨1, by omega, ?_⟩
      intro fuel outer input rest opened
      rw [skipBlanks_membersLeft_nil] at opened
      exact (Ends.object opened).skipOn_eq fuel
  | cons member members ih =>
      rw [List.forall_mem_cons] at keys values passes
      rcases passes.1 with ⟨steps, enough, passesValue⟩
      rcases ih keys.2 values.2 passes.2 with ⟨others, enoughOthers, passesOthers⟩
      refine ⟨others + steps + 2, ?_, ?_⟩
      · simp only [Member.value] at enough
        simp only [List.map_cons, separated, Member.chars, quoted, Item.chars, List.length_append,
          List.length_cons, Bool.false_eq_true, if_false, List.length_nil]
        omega
      · intro fuel outer input rest opened
        rw [membersLeft_next] at opened
        have follows := follows_membersLeft members last rest
        rw [← Nat.add_assoc, ← Nat.add_assoc, (Advances.objectComma opened).skipOn_eq,
          (Advances.key keys.1 rfl).skipOn_eq,
          passesValue (follows.append_blanks member.item.after) (values.1.skipBlanks_item _)]
        exact passesOthers (skipBlanks_append member.item.after _)

theorem passes_object {members : List Member} (last : Blanks)
    (keys : ∀ member ∈ members, IsBody member.key)
    (values : ∀ member ∈ members, IsValue member.value)
    (passes : ∀ member ∈ members, Passes member.value) : Passes (objectText members last) := by
  cases members with
  | nil =>
      refine ⟨2, ?_, ?_⟩
      · simp only [objectText, membersLeft, closed, List.length_cons, List.length_append]
        omega
      · intro fuel stack input rest _ opened
        rw [objectText_append] at opened
        have isEnd : Ends .firstMember (.object :: stack) _ stack rest :=
          .members (skipBlanks_membersLeft_nil true last rest)
        rw [(Advances.brace opened).skipOn_eq (fuel + 1), isEnd.skipOn_eq]
  | cons member members =>
      rw [List.forall_mem_cons] at keys values passes
      rcases passes.1 with ⟨steps, enough, passesValue⟩
      rcases exists_steps_members last keys.2 values.2 passes.2 with
        ⟨others, enoughOthers, passesOthers⟩
      refine ⟨others + steps + 3, ?_, ?_⟩
      · simp only [Member.value] at enough
        simp only [objectText, membersLeft, closed, List.map_cons, separated, Member.chars, quoted,
          Item.chars, List.length_append, List.length_cons, if_true, List.length_nil]
        omega
      · intro fuel stack input rest _ opened
        rw [objectText_append, membersLeft_first] at opened
        have follows := follows_membersLeft members last rest
        have isMember := member.skipBlanks_append
          (membersLeft false members last rest)
        have isKey := (skipBlanks_of_not_isBlank rfl _).trans isMember.symm
        rw [← Nat.add_assoc, ← Nat.add_assoc, (Advances.brace opened).skipOn_eq,
          (Advances.firstMember isMember).skipOn_eq, (Advances.key keys.1 isKey).skipOn_eq,
          passesValue (follows.append_blanks member.item.after) (values.1.skipBlanks_item _)]
        exact passesOthers (skipBlanks_append member.item.after _)

/-! ## Any value -/

theorem passes_of_isValue (isValue : IsValue text) : Passes text := by
  induction isValue with
  | word isWord => exact passes_word isWord
  | number numeral => exact passes_number numeral
  | string isBody => exact passes_string isBody
  | array items last values passes => exact passes_array last values passes
  | object members last keys values passes => exact passes_object last keys values passes

/-- A value is passed over, and nothing after it. -/
theorem skipValue_eq (isValue : IsValue text) (follows : Follows rest)
    (opened : skipBlanks input = text ++ rest) : skipValue input = .ok rest := by
  rcases passes_of_isValue isValue with ⟨steps, enough, passes⟩
  have length_le : text.length ≤ input.length := by
    have dropped := (List.dropWhile_suffix (l := input) isBlank).length_le
    rw [← skipBlanks, opened, List.length_append] at dropped
    omega
  have isEnough : 2 * input.length + 2 = (2 * input.length + 2 - steps) + steps := by omega
  rw [skipValue, isEnough, passes follows opened]
  rfl

end FontCatalog.Json
