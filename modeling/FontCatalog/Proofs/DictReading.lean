import FontCatalog.FileSystem.Resolution
import FontCatalog.Proofs.DictTokens

/-!
# Reading a DICT up to its character collection

A DICT is taken in token by token. Each token is rejected, or passed over, or it is the operator
that names a character collection, at which reading ends. So a reading has three outcomes, each of
which says where it stopped: at the first token that is rejected, at the first character
collection, or at the end. What stands behind that place is never looked at.

Every operator leaves a stack of height 0. Operands that stand between two operators are therefore
read from the lowest slots, whatever older operands have left in them.
-/

namespace FontCatalog.Cff

/-! ## Steps and runs -/

/-- The operator that names the character collection. -/
def Operator.collection : Operator :=
  .escaped 30

theorem Operator.kind_collection : Operator.collection.kind = .characterCollection := by
  decide

namespace DictState

variable {state next last : DictState} {token : Token} {tokens before after : List Token}
  {reference : CollectionReference} {fault : DictFault}

/-- What a token does: it names a character collection, or it is passed over and leaves a state. -/
def step (state : DictState) : Token → Except DictFault (CollectionReference ⊕ DictState)
  | .truncated => .error .outOfBounds
  | .integer value => (state.push ⟨value, false⟩ none).map .inr
  | .real real => (state.push ⟨real.fixed false, true⟩ (some real)).map .inr
  | .operator operator => state.apply operator

theorem collection?_cons (state : DictState) (token : Token) (tokens : List Token) :
    state.collection? (token :: tokens) =
      match state.step token with
      | .error fault => .error fault
      | .ok (.inl reference) => .ok (some reference)
      | .ok (.inr next) => next.collection? tokens := by
  cases token with
  | truncated => rfl
  | integer value =>
      simp only [collection?, step]
      cases state.push ⟨value, false⟩ none <;> rfl
  | real real =>
      simp only [collection?, step]
      cases state.push ⟨real.fixed false, true⟩ (some real) <;> rfl
  | operator operator =>
      simp only [collection?, step]
      rcases state.apply operator with fault | reference | next <;> rfl

/-- The tokens are passed over one after the other, and none names a character collection. -/
inductive Passes : DictState → List Token → DictState → Prop
  | nil {state : DictState} : Passes state [] state
  | cons {state next last : DictState} {token : Token} {tokens : List Token}
      (passed : state.step token = .ok (.inr next)) (others : Passes next tokens last) :
      Passes state (token :: tokens) last

/-- Reading goes on behind tokens that are passed over. -/
theorem Passes.collection?_append (passes : state.Passes before last) (after : List Token) :
    state.collection? (before ++ after) = last.collection? after := by
  induction passes with
  | nil => rfl
  | cons passed others ih => rw [List.cons_append, collection?_cons, passed, ← ih]

/-- Reading stops at a token behind others that are passed over: it rejects the token, or the token
names a character collection. -/
def StopsAt (state : DictState) (tokens : List Token)
    (outcome : Except DictFault CollectionReference) : Prop :=
  ∃ before token after last, tokens = before ++ token :: after ∧ state.Passes before last ∧
    last.step token = outcome.map .inl

theorem StopsAt.collection?_eq {outcome : Except DictFault CollectionReference}
    (stops : state.StopsAt tokens outcome) : state.collection? tokens = outcome.map some := by
  rcases stops with ⟨before, token, after, last, rfl, passes, isStep⟩
  rw [passes.collection?_append, collection?_cons, isStep]
  cases outcome <;> rfl

/-- Reading passes over everything, or stops at one token. -/
theorem passes_or_stopsAt (state : DictState) (tokens : List Token) :
    (∃ last, state.Passes tokens last) ∨ ∃ outcome, state.StopsAt tokens outcome := by
  induction tokens generalizing state with
  | nil => exact Or.inl ⟨state, .nil⟩
  | cons token tokens ih =>
      cases isStep : state.step token with
      | error fault =>
          exact Or.inr ⟨.error fault, [], token, tokens, state, rfl, .nil, isStep⟩
      | ok result =>
          cases result with
          | inl reference =>
              exact Or.inr ⟨.ok reference, [], token, tokens, state, rfl, .nil, isStep⟩
          | inr next =>
              rcases ih next with
                ⟨last, passes⟩ | ⟨outcome, before, other, after, last, rfl, passes, isStop⟩
              · exact Or.inl ⟨last, .cons isStep passes⟩
              · have reaches := Passes.cons isStep passes
                exact Or.inr ⟨outcome, _, other, after, last, rfl, reaches, isStop⟩

theorem Passes.collection?_eq (passes : state.Passes tokens last) :
    state.collection? tokens = .ok none := by
  have isEnd := passes.collection?_append []
  rw [List.append_nil] at isEnd
  exact isEnd

theorem collection?_eq_map_some_iff {outcome : Except DictFault CollectionReference} :
    state.collection? tokens = outcome.map some ↔ state.StopsAt tokens outcome := by
  constructor
  · intro isOutcome
    rcases state.passes_or_stopsAt tokens with ⟨last, passes⟩ | ⟨other, stops⟩
    · rw [passes.collection?_eq] at isOutcome
      cases outcome <;> cases isOutcome
    · rw [stops.collection?_eq] at isOutcome
      have same : other = outcome := by
        cases other <;> cases outcome <;> cases isOutcome <;> rfl
      exact same ▸ stops
  · exact StopsAt.collection?_eq

theorem Passes.stopsAt_append {outcome : Except DictFault CollectionReference}
    (passes : state.Passes before last) (stops : last.StopsAt after outcome) :
    state.StopsAt (before ++ after) outcome := by
  rw [← collection?_eq_map_some_iff, passes.collection?_append, stops.collection?_eq]

end DictState

/-! ## Operands -/

namespace OperandStack

variable {stack : OperandStack} {place other : Nat} {operand : Operand}

theorem length_unused (outside : stack.slots.length ≤ place) :
    (stack.slots ++ List.replicate (place - stack.slots.length)
      (⟨0, false⟩ : Operand)).length = place := by
  simp only [List.length_append, List.length_replicate]
  omega

theorem slot_put_self (stack : OperandStack) (place : Nat) (operand : Operand) :
    (stack.put place operand).slot place = operand := by
  rw [put, slot]
  split
  · rename_i inside
    simp [inside]
  · rename_i outside
    have isLength := length_unused (Nat.not_lt.mp outside)
    rw [List.getD_eq_getElem?_getD, List.getElem?_append_right (Nat.le_of_eq isLength), isLength,
      Nat.sub_self]
    rfl

theorem slot_put_of_lt (before : other < place) (stack : OperandStack) (operand : Operand) :
    (stack.put place operand).slot other = stack.slot other := by
  rw [put, slot, slot]
  split
  · simp [List.getElem?_set_ne (Nat.ne_of_gt before)]
  · rename_i outside
    have isLength := length_unused (Nat.not_lt.mp outside)
    rw [List.getD_eq_getElem?_getD, List.getElem?_append_left (isLength.symm ▸ before)]
    rcases Nat.lt_or_ge other stack.slots.length with used | unused
    · rw [List.getElem?_append_left used]
      rfl
    · have isUnused : other - stack.slots.length < place - stack.slots.length := by omega
      rw [List.getElem?_append_right unused, List.getElem?_replicate_of_lt isUnused]
      simp [List.getElem?_eq_none unused]

end OperandStack

namespace DictState

variable {state next last : DictState} {operator : Operator} {token : Token} {tokens : List Token}

/-- An integer is passed over unless the stack is full. It lies on top of the operands that were
there. -/
theorem exists_step_integer {height : Nat} (isHeight : state.stack.height = height)
    (notFull : height < OperandStack.limit) (value : Int32) :
    ∃ next, state.step (.integer value) = .ok (.inr next) ∧ next.stack.height = height + 1 ∧
      next.stack.slot height = ⟨value, false⟩ ∧
      ∀ place < height, next.stack.slot place = state.stack.slot place := by
  subst isHeight
  refine ⟨⟨{ state.stack.put state.stack.height ⟨value, false⟩ with
    height := state.stack.height + 1 }, none⟩, ?_, rfl, ?_, ?_⟩
  · simp [step, push, OperandStack.push, Nat.ne_of_lt notFull, bind, Except.bind, Except.map]
  · exact OperandStack.slot_put_self state.stack state.stack.height ⟨value, false⟩
  · intro place below
    exact OperandStack.slot_put_of_lt below state.stack ⟨value, false⟩

theorem apply_collection_ne (isCollection : operator.kind = .characterCollection) :
    state.apply operator ≠ .ok (.inr next) := by
  intro applied
  simp only [apply, isCollection, bind_eq_ok_iff] at applied
  rcases applied with ⟨registry, -, ordering, -, isNext⟩
  cases isNext

/-- Every operator that is passed over leaves no operands. -/
theorem height_of_apply (applied : state.apply operator = .ok (.inr next)) :
    next.stack.height = 0 := by
  cases isKind : operator.kind with
  | integer =>
      simp only [apply, isKind, bind_eq_ok_iff] at applied
      rcases applied with ⟨value, -, isNext⟩
      cases isNext
      rfl
  | fixed | other | differences | unknown =>
      simp only [apply, isKind] at applied
      cases applied
      rfl
  | privateRange =>
      simp only [apply, isKind, bind_eq_ok_iff] at applied
      rcases applied with ⟨size, -, place, -, isNext⟩
      split at isNext <;> cases isNext
      rfl
  | smallFixed =>
      simp only [apply, isKind] at applied
      split at applied <;> cases applied <;> rfl
  | characterCollection => exact absurd applied (apply_collection_ne isKind)
  | blend =>
      simp only [apply, isKind] at applied
      cases applied

theorem Passes.exists_step (passes : state.Passes tokens last) (isMember : token ∈ tokens) :
    ∃ before after : DictState, before.step token = .ok (.inr after) := by
  induction passes with
  | nil => cases isMember
  | @cons state next _ first _ passed others ih =>
      rcases List.mem_cons.mp isMember with rfl | isLater
      · exact ⟨state, next, passed⟩
      · exact ih isLater

/-- A token that runs into the end is never passed over. -/
theorem Passes.truncated_not_mem (passes : state.Passes tokens last) : .truncated ∉ tokens := by
  intro isMember
  rcases passes.exists_step isMember with ⟨before, after, passed⟩
  cases passed

theorem Passes.collection_not_mem (passes : state.Passes tokens last) :
    .operator .collection ∉ tokens := by
  intro isMember
  rcases passes.exists_step isMember with ⟨before, after, passed⟩
  exact apply_collection_ne Operator.kind_collection passed

theorem Passes.height_of_getLast? (passes : state.Passes tokens last)
    (isLast : tokens.getLast? = some (.operator operator)) : last.stack.height = 0 := by
  induction passes with
  | nil => cases isLast
  | cons passed others ih =>
      cases others with
      | nil =>
          cases isLast
          exact height_of_apply passed
      | cons =>
          rw [List.getLast?_cons_cons] at isLast
          exact ih isLast

/-- Three integers and the operator of character collections name the collection, if nothing else
lies on the stack. -/
theorem stopsAt_collection (empty : state.stack.height = 0) (registry ordering supplement : Int32)
    (after : List Token) :
    state.StopsAt (.integer registry :: .integer ordering :: .integer supplement ::
        .operator .collection :: after)
      (.ok ⟨stringNumber registry, stringNumber ordering, supplement <<< 16⟩) := by
  -- Each operand is put above the ones before it, which stay in their slots.
  rcases exists_step_integer empty (by decide) registry with ⟨one, isOne, height1, top1, -⟩
  rcases exists_step_integer height1 (by decide) ordering with ⟨two, isTwo, height2, top2, below2⟩
  rcases exists_step_integer height2 (by decide) supplement with
    ⟨three, isThree, -, isSupplement, below3⟩
  have isRegistry : three.stack.slot 0 = ⟨registry, false⟩ := by
    rw [below3 0 (by decide), below2 0 (by decide), top1]
  have isOrdering : three.stack.slot 1 = ⟨ordering, false⟩ := by
    rw [below3 1 (by decide), top2]
  refine ⟨[_, _, _], _, after, three, rfl, .cons isOne (.cons isTwo (.cons isThree .nil)), ?_⟩
  simp [step, apply, Operator.kind_collection, OperandStack.integer, OperandStack.fixed, isRegistry,
    isOrdering, isSupplement, bind, Except.bind, Except.map]

end DictState

end FontCatalog.Cff
