import FontCatalog.Proofs.KeySearch
import Mathlib.Data.List.Infix
import Mathlib.Logic.Relation
import Mathlib.Tactic.Tauto

/-!
# Strings in balanced parentheses

The inside of a string is a sequence of plain characters, of escapes, which are a backslash and any
one character, and of insides that stand in parentheses of their own. `Body` is such an inside as a
tree, and a text spells at most one of them. Reading a string succeeds exactly when a body and a
closing parenthesis follow the opening one, and then gives the value of the body. Otherwise the
text ends too early: between two characters, in the middle of an escape, or inside parentheses.

The reading counts open parentheses. As a loop over an integer, which might as well fall below
zero, it comes to the same result, and its counter stays positive until the last parenthesis.
-/

namespace FontCatalog.Type1.Dictionary

/-- The character stands for itself. -/
def IsPlain (char : Char) : Prop :=
  char ≠ '\\' ∧ char ≠ '(' ∧ char ≠ ')'

instance (char : Char) : Decidable (IsPlain char) :=
  inferInstanceAs (Decidable (_ ∧ _))

/-- How a text begins, as far as strings tell it. -/
inductive Front : List Char → Prop
  | nothing : Front []
  | loneEscape : Front ['\\']
  | escape (char : Char) (rest : List Char) : Front ('\\' :: char :: rest)
  | opening (rest : List Char) : Front ('(' :: rest)
  | closing (rest : List Char) : Front (')' :: rest)
  | plain (char : Char) (isPlain : IsPlain char) (rest : List Char) : Front (char :: rest)

theorem Front.of (text : List Char) : Front text := by
  match text with
  | [] => exact .nothing
  | char :: rest =>
      by_cases isPlain : IsPlain char
      · exact .plain char isPlain rest
      · have special : char = '\\' ∨ char = '(' ∨ char = ')' := by
          simp only [IsPlain] at isPlain
          tauto
        rcases special with rfl | rfl | rfl
        · cases rest with
          | nil => exact .loneEscape
          | cons char rest => exact .escape char rest
        · exact .opening rest
        · exact .closing rest

/-- The inside of a string, as a tree. -/
inductive Body where
  | empty
  | plain (char : Char) (isPlain : IsPlain char) (rest : Body)
  | escaped (char : Char) (rest : Body)
  | nested (inner rest : Body)

namespace Body

/-- The text that a body spells, without the parentheses around it. -/
def text : Body → List Char
  | empty => []
  | plain char _ rest => char :: rest.text
  | escaped char rest => '\\' :: char :: rest.text
  | nested inner rest => '(' :: (inner.text ++ ')' :: rest.text)

/-- The text without the backslashes of escapes. -/
def value : Body → List Char
  | empty => []
  | plain char _ rest => char :: rest.value
  | escaped char rest => char :: rest.value
  | nested inner rest => '(' :: (inner.value ++ ')' :: rest.value)

/-- A body that spells a text, where every parenthesis and backslash of the text is escaped. -/
def ofText : List Char → Body
  | [] => empty
  | char :: rest =>
      if isPlain : IsPlain char then plain char isPlain (ofText rest)
      else escaped char (ofText rest)

end Body

/-- The text with a backslash in front of every parenthesis and every backslash. -/
def escape (text : List Char) : List Char :=
  text.flatMap fun char => if IsPlain char then [char] else ['\\', char]

/-- The text ends before the string does. -/
inductive Unclosed : List Char → Prop
  | ended (body : Body) : Unclosed body.text
  | escaping (body : Body) : Unclosed (body.text ++ ['\\'])
  | nested (body : Body) {rest : List Char} (inner : Unclosed rest) :
      Unclosed (body.text ++ '(' :: rest)

variable {char : Char} {depth : Nat} {text rest otherRest value : List Char} {body other : Body}

/-! ## Bodies and their texts -/

theorem Body.eq_of_text_append_eq
    (same : body.text ++ ')' :: rest = other.text ++ ')' :: otherRest) :
    body = other ∧ rest = otherRest := by
  -- Every constructor begins with a character of its own, which closes no string.
  induction body generalizing other rest otherRest with
  | empty =>
      cases other with
      | empty => simpa [text] using same
      | plain char isPlain others => exact absurd (List.cons.inj same).1.symm isPlain.2.2
      | escaped char others => simp [text] at same
      | nested inner others => simp [text] at same
  | plain char isPlain body ih =>
      cases other with
      | empty => exact absurd (List.cons.inj same).1 isPlain.2.2
      | plain otherChar otherIsPlain others =>
          simp only [text, List.cons_append, List.cons.injEq] at same
          rcases same with ⟨rfl, same⟩
          rcases ih same with ⟨rfl, sameRest⟩
          exact ⟨rfl, sameRest⟩
      | escaped otherChar others => exact absurd (List.cons.inj same).1 isPlain.1
      | nested inner others => exact absurd (List.cons.inj same).1 isPlain.2.1
  | escaped char body ih =>
      cases other with
      | empty => simp [text] at same
      | plain otherChar isPlain others => exact absurd (List.cons.inj same).1.symm isPlain.1
      | escaped otherChar others =>
          simp only [text, List.cons_append, List.cons.injEq, true_and] at same
          rcases same with ⟨rfl, same⟩
          rcases ih same with ⟨rfl, sameRest⟩
          exact ⟨rfl, sameRest⟩
      | nested inner others => simp [text] at same
  | nested inner body ihInner ihBody =>
      cases other with
      | empty => simp [text] at same
      | plain otherChar isPlain others => exact absurd (List.cons.inj same).1.symm isPlain.2.1
      | escaped otherChar others => simp [text] at same
      | nested otherInner others =>
          simp only [text, List.cons_append, List.append_assoc, List.cons.injEq, true_and] at same
          rcases ihInner same with ⟨rfl, sameBody⟩
          rcases ihBody sameBody with ⟨rfl, sameRest⟩
          exact ⟨rfl, sameRest⟩

theorem Body.text_ofText (text : List Char) : (ofText text).text = escape text := by
  induction text with
  | nil => rfl
  | cons char rest ih =>
      simp only [ofText, escape, List.flatMap_cons]
      split
      · simpa [Body.text, escape] using ih
      · simpa [Body.text, escape] using ih

theorem Body.value_ofText (text : List Char) : (ofText text).value = text := by
  induction text with
  | nil => rfl
  | cons char rest ih =>
      simp only [ofText]
      split
      · simpa [Body.value] using ih
      · simpa [Body.value] using ih

theorem Unclosed.plain (isPlain : IsPlain char) (unclosed : Unclosed text) :
    Unclosed (char :: text) := by
  cases unclosed with
  | ended body => exact .ended (.plain char isPlain body)
  | escaping body => exact .escaping (.plain char isPlain body)
  | nested body inner => exact .nested (.plain char isPlain body) inner

theorem Unclosed.escaped (char : Char) (unclosed : Unclosed text) :
    Unclosed ('\\' :: char :: text) := by
  cases unclosed with
  | ended body => exact .ended (.escaped char body)
  | escaping body => exact .escaping (.escaped char body)
  | nested body inner => exact .nested (.escaped char body) inner

theorem Unclosed.behind (front : Body) (unclosed : Unclosed text) :
    Unclosed ('(' :: (front.text ++ ')' :: text)) := by
  cases unclosed with
  | ended body => exact .ended (.nested front body)
  | escaping body =>
      simpa [Body.text] using Unclosed.escaping (.nested front body)
  | nested body inner =>
      simpa [Body.text] using Unclosed.nested (.nested front body) inner

/-- A text spells a body and a closing parenthesis, or ends before it. -/
theorem closed_or_unclosed (text : List Char) :
    (∃ body rest, text = Body.text body ++ ')' :: rest) ∨ Unclosed text := by
  induction size : text.length using Nat.strong_induction_on generalizing text with
  | h length ih =>
      subst size
      cases Front.of text with
      | nothing => exact Or.inr (.ended .empty)
      | loneEscape => exact Or.inr (.escaping .empty)
      | escape char text =>
          have shorter : text.length < ('\\' :: char :: text).length := by
            simp only [List.length_cons]
            omega
          rcases ih text.length shorter text rfl with ⟨body, rest, rfl⟩ | unclosed
          · exact Or.inl ⟨.escaped char body, rest, rfl⟩
          · exact Or.inr (unclosed.escaped char)
      | opening text =>
          rcases ih text.length (by simp) text rfl with ⟨front, rest, rfl⟩ | unclosed
          · rcases ih rest.length (by simp; omega) rest rfl with ⟨body, rest, rfl⟩ | unclosed
            · left
              refine ⟨.nested front body, rest, ?_⟩
              simp [Body.text]
            · exact Or.inr (unclosed.behind front)
          · exact Or.inr (.nested .empty unclosed)
      | closing text => exact Or.inl ⟨.empty, text, rfl⟩
      | plain char isPlain text =>
          rcases ih text.length (by simp) text rfl with ⟨body, rest, rfl⟩ | unclosed
          · exact Or.inl ⟨.plain char isPlain body, rest, rfl⟩
          · exact Or.inr (unclosed.plain isPlain)

/-! ## Reading a body -/

theorem stringBody?_plain (isPlain : IsPlain char) :
    stringBody? depth (char :: rest) = (stringBody? depth rest).map (char :: ·) := by
  rcases isPlain with ⟨notEscape, notOpening, notClosing⟩
  conv => lhs; unfold stringBody?
  split <;> simp_all

/-- A body is read to its end, whatever is open around it. -/
theorem stringBody?_text_append (body : Body) (depth : Nat) (rest : List Char) :
    stringBody? depth (body.text ++ rest) =
      (stringBody? depth rest).map (body.value ++ ·) := by
  induction body generalizing depth rest with
  | empty => simp [Body.text, Body.value]
  | plain char isPlain body ih =>
      simp only [Body.text, Body.value, List.cons_append]
      rw [stringBody?_plain isPlain, ih, Option.map_map]
      rfl
  | escaped char body ih =>
      simp only [Body.text, Body.value, List.cons_append]
      rw [stringBody?, ih, Option.map_map]
      rfl
  | nested inner body ihInner ihBody =>
      simp only [Body.text, Body.value, List.cons_append, List.append_assoc]
      rw [stringBody?, ihInner, stringBody?, ihBody]
      simp only [Option.map_map]
      rfl

theorem stringBody?_unclosed (unclosed : Unclosed text) (depth : Nat) :
    stringBody? depth text = none := by
  induction unclosed generalizing depth with
  | ended body =>
      rw [← List.append_nil body.text, stringBody?_text_append, stringBody?, Option.map_none]
  | escaping body =>
      rw [stringBody?_text_append, stringBody?]
      rfl
  | nested body inner ih =>
      rw [stringBody?_text_append, stringBody?, ih]
      rfl

theorem stringBody?_eq_some_iff :
    stringBody? 0 text = some value ↔
      ∃ body rest, text = Body.text body ++ ')' :: rest ∧ value = body.value := by
  constructor
  · intro isRead
    rcases closed_or_unclosed text with ⟨body, rest, rfl⟩ | unclosed
    · rw [stringBody?_text_append, stringBody?] at isRead
      simp only [Option.map_some, List.append_nil, Option.some.injEq] at isRead
      exact ⟨body, rest, rfl, isRead.symm⟩
    · rw [stringBody?_unclosed unclosed] at isRead
      cases isRead
  · rintro ⟨body, rest, rfl, rfl⟩
    rw [stringBody?_text_append, stringBody?]
    simp

theorem stringBody?_eq_none_iff : stringBody? 0 text = none ↔ Unclosed text := by
  constructor
  · intro notRead
    rcases closed_or_unclosed text with ⟨body, rest, rfl⟩ | unclosed
    · rw [stringBody?_text_append, stringBody?] at notRead
      cases notRead
    · exact unclosed
  · intro unclosed
    exact stringBody?_unclosed unclosed 0

/-! ## The counter of open parentheses -/

/-- The reading of a string between two turns of its loop: the counter of open parentheses, the
characters that were taken, and those that are to come. -/
structure Reading where
  depth : Int
  taken : List Char
  rest : List Char

/-- What a turn of the loop comes to. -/
inductive Turn where
  | goesOn (next : Reading)
  | ends (result : Option (List Char))

namespace Reading

/-- Where the reading of a string begins: behind its opening parenthesis, with nothing read. -/
def start (text : List Char) : Reading :=
  ⟨1, [], text⟩

/-- One turn of the loop. Nothing in it keeps the counter from falling below zero. -/
def turn : Reading → Turn
  | ⟨_, _, []⟩ => .ends none
  | ⟨depth, taken, '\\' :: []⟩ => .goesOn ⟨depth, taken, []⟩
  | ⟨depth, taken, '\\' :: escaped :: rest⟩ => .goesOn ⟨depth, taken ++ [escaped], rest⟩
  | ⟨depth, taken, '(' :: rest⟩ => .goesOn ⟨depth + 1, taken ++ ['('], rest⟩
  | ⟨depth, taken, ')' :: rest⟩ =>
      if depth - 1 = 0 then .ends (some taken)
      else .goesOn ⟨depth - 1, taken ++ [')'], rest⟩
  | ⟨depth, taken, char :: rest⟩ => .goesOn ⟨depth, taken ++ [char], rest⟩

/-- Turns of the loop lead from one reading to another, none of them counted. -/
def Reaches : Reading → Reading → Prop :=
  Relation.ReflTransGen fun reading next => reading.turn = .goesOn next

/-- The reading of a text has come to this point: some parentheses are open, and what is still to
be read makes up the string with what was taken. -/
def Continues (text : List Char) (reading : Reading) : Prop :=
  ∃ depth : Nat, reading.depth = depth + 1 ∧
    stringBody? 0 text = (stringBody? depth reading.rest).map (reading.taken ++ ·)

variable {reading next last : Reading} {result : Option (List Char)}

theorem turn_plain {depth : Int} {taken : List Char} (isPlain : IsPlain char) :
    turn ⟨depth, taken, char :: rest⟩ = .goesOn ⟨depth, taken ++ [char], rest⟩ := by
  rcases isPlain with ⟨notEscape, notOpening, notClosing⟩
  simp_all [turn]

theorem Continues.take {nextDepth : Nat} {counter : Int} {taken others : List Char}
    (isText : stringBody? 0 text = (stringBody? depth rest).map (taken ++ ·))
    (takes : stringBody? depth rest = (stringBody? nextDepth others).map (char :: ·))
    (isCounter : counter = nextDepth + 1) : Continues text ⟨counter, taken ++ [char], others⟩ := by
  refine ⟨nextDepth, isCounter, ?_⟩
  rw [isText, takes, Option.map_map]
  simp [Function.comp_def]

theorem Continues.turn (continues : Continues text reading) :
    (∃ next, reading.turn = .goesOn next ∧ Continues text next ∧
        next.rest.length < reading.rest.length) ∨
      reading.turn = .ends (stringBody? 0 text) := by
  rcases reading with ⟨counter, taken, rest⟩
  rcases continues with ⟨depth, isDepth, isText⟩
  simp only at isDepth isText
  subst isDepth
  cases Front.of rest with
  | nothing =>
      right
      rw [isText, stringBody?]
      rfl
  | loneEscape =>
      left
      refine ⟨_, rfl, ⟨depth, rfl, ?_⟩, by simp⟩
      rw [isText, stringBody?, stringBody?]
  | escape escaped rest =>
      left
      refine ⟨_, rfl, .take isText (by rw [stringBody?]) rfl, ?_⟩
      simp only [List.length_cons]
      omega
  | opening rest =>
      left
      exact ⟨_, rfl, .take isText (by rw [stringBody?]) (by simp), by simp⟩
  | closing rest =>
      cases depth with
      | zero =>
          right
          rw [isText, stringBody?]
          simp [Reading.turn]
      | succ depth =>
          left
          have stillOpen : ((depth + 1 : Nat) : Int) + 1 - 1 ≠ 0 := by omega
          exact ⟨_, if_neg stillOpen, .take isText (by rw [stringBody?]) (by simp), by simp⟩
  | plain char isPlain rest =>
      left
      exact ⟨_, turn_plain isPlain, .take isText (stringBody?_plain isPlain) rfl, by simp⟩

theorem Continues.start (text : List Char) : Continues text (start text) := by
  refine ⟨0, rfl, ?_⟩
  simp [Reading.start]

theorem Continues.of_reaches (continues : Continues text reading)
    (reaches : reading.Reaches next) : Continues text next := by
  induction reaches with
  | refl => exact continues
  | tail _ isTurn ih =>
      rcases ih.turn with ⟨next, isNext, continuesNext, -⟩ | isEnd
      · rw [isNext] at isTurn
        cases isTurn
        exact continuesNext
      · rw [isEnd] at isTurn
        cases isTurn

/-- The loop ends, since every turn takes a character, and it ends with the result. -/
theorem Continues.exists_end (continues : Continues text reading) :
    ∃ last, reading.Reaches last ∧ last.turn = .ends (stringBody? 0 text) := by
  induction size : reading.rest.length using Nat.strong_induction_on generalizing reading with
  | h length ih =>
      subst size
      rcases continues.turn with ⟨next, isNext, continuesNext, shorter⟩ | isEnd
      · rcases ih _ shorter continuesNext rfl with ⟨last, reaches, isEnd⟩
        exact ⟨last, .head isNext reaches, isEnd⟩
      · exact ⟨reading, .refl, isEnd⟩

theorem Continues.depth_pos (continues : Continues text reading) : 0 < reading.depth := by
  rcases continues with ⟨depth, isDepth, -⟩
  omega

end Reading

/-! ## Strings under keys -/

variable {key : Key}

/-- A string is read under a key exactly when a body in parentheses stands there. -/
structure ReadsStrings (key : Key) (text : List Char) : Prop where
  eq_some_iff : ∀ value, stringUnder? key text = some value ↔
    ∃ body rest, afterKey? key text = some ('(' :: (Body.text body ++ ')' :: rest)) ∧
      value = String.ofList (Text.trim body.value)
  unique : ∀ {body other : Body} {rest otherRest : List Char},
    afterKey? key text = some ('(' :: (body.text ++ ')' :: rest)) →
      afterKey? key text = some ('(' :: (other.text ++ ')' :: otherRest)) →
      body = other ∧ rest = otherRest
  eq_none_iff : stringUnder? key text = none ↔
    afterKey? key text = none ∨
      ∃ rest, afterKey? key text = some rest ∧
        ∀ inside, rest = '(' :: inside → Unclosed inside
  /-- The loop never finds its counter at zero, so one step down leaves it at zero or above. -/
  depth_pos : ∀ {inside : List Char} {reading : Reading},
    afterKey? key text = some ('(' :: inside) → (Reading.start inside).Reaches reading →
      0 < reading.depth
  ends : ∀ {inside : List Char}, afterKey? key text = some ('(' :: inside) →
    ∃ last result, (Reading.start inside).Reaches last ∧ last.turn = .ends result ∧
      stringUnder? key text = result.map fun value => String.ofList (Text.trim value)

theorem stringUnder?_of_afterKey? {inside : List Char}
    (found : afterKey? key text = some ('(' :: inside)) :
    stringUnder? key text =
      (stringBody? 0 inside).map fun value => String.ofList (Text.trim value) := by
  rw [stringUnder?, found, Option.map_eq_bind]
  rfl

theorem stringUnder?_eq_some_iff {value : String} :
    stringUnder? key text = some value ↔
      ∃ body rest, afterKey? key text = some ('(' :: (Body.text body ++ ')' :: rest)) ∧
        value = String.ofList (Text.trim body.value) := by
  constructor
  · intro found
    simp only [stringUnder?, Option.bind_eq_bind, Option.bind_eq_some_iff, Option.pure_def,
      Option.some.injEq] at found
    rcases found with ⟨behind, isBehind, read, isRead, rfl⟩
    simp only [string?] at isRead
    split at isRead
    · rcases stringBody?_eq_some_iff.mp isRead with ⟨body, rest, rfl, rfl⟩
      exact ⟨body, rest, isBehind, rfl⟩
    · cases isRead
  · rintro ⟨body, rest, isBehind, rfl⟩
    rw [stringUnder?_of_afterKey? isBehind,
      stringBody?_eq_some_iff.mpr ⟨body, rest, rfl, rfl⟩, Option.map_some]

theorem stringUnder?_eq_none_iff :
    stringUnder? key text = none ↔
      afterKey? key text = none ∨
        ∃ rest, afterKey? key text = some rest ∧
          ∀ inside, rest = '(' :: inside → Unclosed inside := by
  cases found : afterKey? key text with
  | none => simp [stringUnder?, found]
  | some rest =>
      by_cases opens : ∃ inside, rest = '(' :: inside
      · rcases opens with ⟨inside, rfl⟩
        rw [stringUnder?_of_afterKey? found, Option.map_eq_none_iff, stringBody?_eq_none_iff]
        simp
      · have notRead : string? rest = none := by
          simp only [string?]
          split
          · exact absurd ⟨_, rfl⟩ opens
          · rfl
        apply iff_of_true
        · simp [stringUnder?, found, notRead]
        · right
          refine ⟨rest, rfl, ?_⟩
          intro inside isOpened
          exact absurd ⟨inside, isOpened⟩ opens

theorem readsStrings_of (key : Key) (text : List Char) : ReadsStrings key text where
  eq_some_iff _ := stringUnder?_eq_some_iff
  unique := by
    intro body other rest otherRest found foundOther
    rw [found, Option.some.injEq, List.cons.injEq] at foundOther
    exact Body.eq_of_text_append_eq foundOther.2
  eq_none_iff := stringUnder?_eq_none_iff
  depth_pos := by
    intro inside reading found reaches
    exact ((Reading.Continues.start inside).of_reaches reaches).depth_pos
  ends := by
    intro inside found
    rcases (Reading.Continues.start inside).exists_end with ⟨last, reaches, isEnd⟩
    exact ⟨last, _, reaches, isEnd, stringUnder?_of_afterKey? found⟩

/-- A string with its parentheses and backslashes escaped is read as it is, but for white space at
its ends. -/
theorem stringUnder?_escape {before blanks after : List Char} (string : List Char)
    (apart : key.first ∉ key.others) (free : ¬key.chars <:+: before)
    (isBlank : blanks ≠ []) (areBlank : ∀ blank ∈ blanks, Text.isWhiteSpace blank = true) :
    stringUnder? key (before ++ key.chars ++ blanks ++ '(' :: (escape string ++ ')' :: after)) =
      some (String.ofList (Text.trim string)) := by
  obtain ⟨blank, more, rfl⟩ := List.exists_cons_of_ne_nil isBlank
  have behind : Text.trimStart (blank :: more ++ '(' :: (escape string ++ ')' :: after)) =
      '(' :: (escape string ++ ')' :: after) := by
    rw [Text.trimStart, List.dropWhile_append_of_pos areBlank]
    rfl
  rw [stringUnder?_eq_some_iff]
  refine ⟨.ofText string, after, ?_, by rw [Body.value_ofText]⟩
  rw [afterKey?_eq_some_iff apart, Body.text_ofText, List.append_assoc]
  exact ⟨_, _, Key.firstWholeAt_behind apart free (areBlank blank List.mem_cons_self),
    behind.symm⟩

/-- Under every key, in every text, what is read is the value of the body that stands there in
parentheses; and every string can be written as such a body by escaping. -/
theorem readsStrings :
    (∀ key text, ReadsStrings key text) ∧
      ∀ key ∈ [Key.familyName, Key.fullName, Key.weight],
        ∀ before blanks string after : List Char, ¬key.chars <:+: before → blanks ≠ [] →
          (∀ blank ∈ blanks, Text.isWhiteSpace blank = true) →
          stringUnder? key
              (before ++ key.chars ++ blanks ++ '(' :: (escape string ++ ')' :: after)) =
            some (String.ofList (Text.trim string)) := by
  constructor
  · exact readsStrings_of
  · intro key isKey before blanks string after free isBlank areBlank
    have apart : key.first ∉ key.others := by
      simp only [List.mem_cons, List.not_mem_nil, or_false] at isKey
      rcases isKey with rfl | rfl | rfl <;> decide
    exact stringUnder?_escape string apart free isBlank areBlank

/-- A string with a backslash, a pair of parentheses, and blanks at its ends, behind a text that
ends as the key begins. -/
theorem readsStrings_specimen :
    Key.fullName ∈ [Key.familyName, Key.fullName, Key.weight] ∧
      ¬Key.fullName.chars <:+: "/FullNam /F".toList ∧
      escape " a\\(b) ".toList = " a\\\\\\(b\\) ".toList ∧
      stringUnder? .fullName ("/FullNam /F".toList ++ Key.fullName.chars ++ " \n".toList ++
        '(' :: (escape " a\\(b) ".toList ++ ')' :: " def".toList)) = some "a\\(b)" := by
  have isKey : Key.fullName ∈ [Key.familyName, Key.fullName, Key.weight] := by
    decide
  have free : ¬Key.fullName.chars <:+: "/FullNam /F".toList := by
    decide
  have isTrimmed : String.ofList (Text.trim " a\\(b) ".toList) = "a\\(b)" := by
    decide +kernel
  have areBlank : ∀ blank ∈ " \n".toList, Text.isWhiteSpace blank = true := by
    simp [Text.isWhiteSpace]
  refine ⟨isKey, free, by decide, ?_⟩
  rw [← isTrimmed]
  exact readsStrings.2 .fullName isKey _ _ _ _ free (by decide) areBlank

end FontCatalog.Type1.Dictionary
