import FontCatalog.Cff.Real
import FontCatalog.Decimal.Integer

/-!
# Top DICTs

A DICT is a sequence of operands and operators; an operator takes the operands before it. Only the
operator that names the character collection of a CID-keyed font is of interest, but every operator
before it has to find operands that it can use. Operands lie on a stack of limited height. Clearing
the stack resets its height and keeps its slots, and a slot above the height can still be read.
-/

namespace FontCatalog.Cff

/-- Why a DICT cannot be read. -/
inductive DictFault where
  | outOfBounds
  | stackFull
  | notInteger (place : Nat)
  | blendWithoutState
deriving DecidableEq

/-- The wording of a fault. -/
def DictFault.message : DictFault → String
  | outOfBounds => "An offset was out of bounds"
  | stackFull => "attempted to push a value to a full stack"
  | notInteger place =>
      "attempted to read an integer at stack index " ++ Decimal.text place ++
        ", but found a fixed point value"
  | blendWithoutState => "encountered a blend operator but no blend state was provided"

/-! ## Tokens -/

/-- An operator: a byte of its own, or a byte after an escape. -/
inductive Operator where
  | plain (byte : UInt8)
  | escaped (byte : UInt8)
deriving DecidableEq

/-- A token of a DICT. -/
inductive Token where
  | integer (value : Int32)
  | real (real : Real)
  | operator (operator : Operator)
  /-- A token whose bytes are not all there. -/
  | truncated
deriving DecidableEq

namespace Token

/-- The signed number that two bytes spell. -/
def signed16 (high low : UInt8) : Int32 :=
  (UInt16.ofNat (high.toNat * 256 + low.toNat)).toInt16.toInt32

/-- The signed number that four bytes spell. -/
def signed32 (bytes : Bytes) : Int32 :=
  (UInt32.ofNat (Bytes.bigEndian bytes)).toInt32

/-- The token that starts with a byte, and how many of the bytes after it belong to it. -/
def read (first : UInt8) (rest : Bytes) : Token × Nat :=
  let byte := first.toNat
  if byte = 12 then
    match rest with
    | second :: _ => (operator (.escaped second), 1)
    | [] => (truncated, 0)
  else if byte = 28 then
    match rest with
    | high :: low :: _ => (integer (signed16 high low), 2)
    | _ => (truncated, rest.length)
  else if byte = 29 then
    match rest with
    | byte0 :: byte1 :: byte2 :: byte3 :: _ =>
        (integer (signed32 [byte0, byte1, byte2, byte3]), 4)
    | _ => (truncated, rest.length)
  else if byte = 30 then
    match Real.read? rest with
    | some (value, size) => (real value, size)
    | none => (truncated, rest.length)
  else if 32 ≤ byte ∧ byte ≤ 246 then (integer (Int32.ofInt ((byte : Int) - 139)), 0)
  else if 247 ≤ byte ∧ byte ≤ 254 then
    match rest with
    | second :: _ =>
        let value : Int :=
          if byte ≤ 250 then ((byte : Int) - 247) * 256 + second.toNat + 108
          else -((byte : Int) - 251) * 256 - second.toNat - 108
        (integer (Int32.ofInt value), 1)
    | [] => (truncated, 0)
  else (operator (.plain first), 0)

/-- The tokens of a DICT. -/
def list (bytes : Bytes) : List Token :=
  match bytes with
  | [] => []
  | first :: rest =>
      let (token, size) := read first rest
      token :: list (rest.drop size)
termination_by bytes.length
decreasing_by
  simp only [List.length_cons, List.length_drop]
  omega

end Token

/-! ## Operands -/

/-- An operand: an integer, or a fixed-point number with 16 bits after the point. -/
structure Operand where
  bits : Int32
  isFixed : Bool
deriving DecidableEq

/-- The operands of a DICT. -/
structure OperandStack where
  /-- The slots that have been used. -/
  slots : List Operand
  height : Nat
deriving DecidableEq

namespace OperandStack

/-- A stack that has not been used. -/
def empty : OperandStack :=
  ⟨[], 0⟩

/-- The greatest height. -/
def limit : Nat := 513

/-- The operand in a slot; a slot that has not been used holds the integer 0. -/
def slot (stack : OperandStack) (place : Nat) : Operand :=
  stack.slots.getD place ⟨0, false⟩

/-- The integer in a slot. -/
def integer (stack : OperandStack) (place : Nat) : Except DictFault Int32 :=
  let operand := stack.slot place
  if operand.isFixed then .error (.notInteger place) else .ok operand.bits

/-- The fixed-point number in a slot. -/
def fixed (stack : OperandStack) (place : Nat) : Int32 :=
  let operand := stack.slot place
  if operand.isFixed then operand.bits else operand.bits <<< 16

/-- Puts an operand into a slot. -/
def put (stack : OperandStack) (place : Nat) (operand : Operand) : OperandStack :=
  if place < stack.slots.length then { stack with slots := stack.slots.set place operand }
  else
    let unused := List.replicate (place - stack.slots.length) ⟨0, false⟩
    { stack with slots := stack.slots ++ unused ++ [operand] }

/-- Puts an operand on top. -/
def push (stack : OperandStack) (operand : Operand) : Except DictFault OperandStack :=
  if stack.height = limit then .error .stackFull
  else
    let filled := stack.put stack.height operand
    .ok { filled with height := stack.height + 1 }

/-- The place of the operand on top; place 0 on an empty stack. -/
def top (stack : OperandStack) : Nat :=
  stack.height - 1

/-- The stack with no operands. -/
def clear (stack : OperandStack) : OperandStack :=
  { stack with height := 0 }

/-- The slots below the height, each replaced by the sum of itself and all below it. -/
def accumulateFrom (stack : OperandStack) (place : Nat) (sum : Int32) : Nat → OperandStack
  | 0 => stack
  | count + 1 =>
      let total := sum + stack.fixed place
      accumulateFrom (stack.put place ⟨total, true⟩) (place + 1) total count

/-- Differences turned into the numbers they add up to. A single operand stays as it is. -/
def accumulate (stack : OperandStack) : OperandStack :=
  if 1 < stack.height then stack.accumulateFrom 0 0 stack.height else stack

end OperandStack

/-! ## Operators -/

/-- The character collection that a top DICT names: the numbers of two strings, and a supplement
with 16 bits after the point. -/
structure CollectionReference where
  registry : Nat
  ordering : Nat
  supplement : Int32
deriving DecidableEq

/-- What an operator does with the stack. -/
inductive OperatorKind where
  /-- Takes an integer. -/
  | integer
  /-- Takes a fixed-point number. -/
  | fixed
  /-- Takes differences. -/
  | differences
  /-- Takes the size and the place of the private DICT. -/
  | privateRange
  /-- Takes a fixed-point number that is small. -/
  | smallFixed
  /-- Takes the character collection. -/
  | characterCollection
  /-- Blends operands of several designs. -/
  | blend
  /-- Takes nothing that matters. -/
  | other
  /-- No operator of a DICT. -/
  | unknown
deriving DecidableEq

namespace Operator

/-- What an operator does. -/
def kind : Operator → OperatorKind
  | plain byte =>
      if byte ≤ 4 ∨ byte = 13 ∨ (15 ≤ byte ∧ byte ≤ 17) ∨ byte = 19 ∨ byte = 24 then .integer
      else if byte = 10 ∨ byte = 11 ∨ byte = 20 ∨ byte = 21 then .fixed
      else if 6 ≤ byte ∧ byte ≤ 9 then .differences
      else if byte = 18 then .privateRange
      else if byte = 22 ∨ byte = 23 then .blend
      else if byte = 5 ∨ byte = 14 then .other
      else .unknown
  | escaped byte =>
      if byte ≤ 1 ∨ byte = 5 ∨ byte = 6 ∨ byte = 14 ∨ byte = 17 ∨ (19 ≤ byte ∧ byte ≤ 22) ∨
          (33 ≤ byte ∧ byte ≤ 38) then .integer
      else if byte = 9 then .smallFixed
      else if (2 ≤ byte ∧ byte ≤ 4) ∨ (8 ≤ byte ∧ byte ≤ 11) ∨ byte = 18 ∨ byte = 31 ∨
          byte = 32 then .fixed
      else if byte = 12 ∨ byte = 13 then .differences
      else if byte = 30 then .characterCollection
      else if byte = 7 ∨ byte = 23 then .other
      else .unknown

end Operator

/-- A signed number as an unsigned one of 64 bits. -/
def unsigned64 (value : Int32) : Nat :=
  value.toInt64.toUInt64.toNat

/-- The number of a string: the low 16 bits of an operand. -/
def stringNumber (value : Int32) : Nat :=
  value.toUInt32.toUInt16.toNat

/-- The state of reading a DICT: the operands, and the last operand if it was a real one and no
known operator has come after it. -/
structure DictState where
  stack : OperandStack
  lastReal : Option Real
deriving DecidableEq

namespace DictState

/-- The state before the first token. -/
def start : DictState :=
  ⟨.empty, none⟩

/-- Takes in an operand. -/
def push (state : DictState) (operand : Operand) (real : Option Real) :
    Except DictFault DictState := do
  let stack ← state.stack.push operand
  .ok ⟨stack, real⟩

/-- The state after an operator that leaves the given stack. -/
def cleared (stack : OperandStack) : DictState :=
  ⟨stack.clear, none⟩

/-- What an operator does: it names the character collection, or it leaves a state. An unknown
operator drops the operands and does nothing else, so the last real operand is kept. -/
def apply (state : DictState) (operator : Operator) :
    Except DictFault (CollectionReference ⊕ DictState) :=
  let stack := state.stack
  match operator.kind with
  | .integer => do
      let _ ← stack.integer stack.top
      .ok (.inr (cleared stack))
  | .fixed | .other => .ok (.inr (cleared stack))
  | .differences => .ok (.inr (cleared stack.accumulate))
  | .privateRange => do
      let size ← stack.integer 0
      let place ← stack.integer 1
      if unsigned64 size + unsigned64 place < 0x10000000000000000 then .ok (.inr (cleared stack))
      else .error .outOfBounds
  | .smallFixed =>
      match state.lastReal with
      | none => .ok (.inr (cleared stack))
      | some real =>
          .ok (.inr (cleared (stack.put stack.top ⟨real.fixed true, true⟩)))
  | .characterCollection => do
      let registry ← stack.integer 0
      let ordering ← stack.integer 1
      .ok (.inl ⟨stringNumber registry, stringNumber ordering, stack.fixed 2⟩)
  | .blend => .error .blendWithoutState
  | .unknown => .ok (.inr { state with stack := stack.clear })

/-- The first character collection that the tokens name. -/
def collection? (state : DictState) : List Token → Except DictFault (Option CollectionReference)
  | [] => .ok none
  | .truncated :: _ => .error .outOfBounds
  | .integer value :: rest => do
      let next ← state.push ⟨value, false⟩ none
      next.collection? rest
  | .real real :: rest => do
      let next ← state.push ⟨real.fixed false, true⟩ (some real)
      next.collection? rest
  | .operator operator :: rest => do
      match ← state.apply operator with
      | .inl collection => .ok (some collection)
      | .inr next => next.collection? rest

end DictState

/-- The character collection that a top DICT names, if it names one. -/
def topDictCollection? (bytes : Bytes) : Except DictFault (Option CollectionReference) :=
  DictState.start.collection? (Token.list bytes)

end FontCatalog.Cff
