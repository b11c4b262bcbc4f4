import FrameCode.Fault

/-!
# Checked operands

The operands of an instruction are checked against the signature of its opcode before it is
executed.  The result has one component for each position, of the type which that position asks
for, so execution has no case for an operand that does not fit.  It keeps the order number of the
instruction, which the faults of the operations on its values name.

A position for a value takes any operand here; a label or the name of a type in it is refused when
its value is asked for.
-/

namespace FrameCode

/-- What an operand position holds once it has been checked. -/
@[reducible] def Slot.Content : Slot → Type
  | .place => Place
  | .symbol => Operand
  | .label => String
  | .type => String

/-- The content of a position for an operand that fits it. -/
def Slot.fit? : (s : Slot) → Operand → Option s.Content
  | .place, .place p => some p
  | .symbol, x => some x
  | .label, .label name => some name
  | .type, .type name => some name
  | _, _ => none

/-- Contents of all positions of a signature. -/
@[reducible] def Contents : List Slot → Type
  | [] => Unit
  | s :: slots => s.Content × Contents slots

/-- The operands of an instruction that fit the signature of its opcode. -/
structure Operands (op : Opcode) where
  /-- The order number of the instruction. -/
  order : Nat
  contents : Contents op.signature

namespace Operands

/-- Fits operands to as many positions, from the left, the first of which has the number
`position`. -/
def fill (order : Nat) (op : Opcode) (position : Nat) : (slots : List Slot) →
    (xs : List Operand) → xs.length = slots.length → Except Fault (Contents slots)
  | [], [], _ => .ok ()
  | s :: slots, x :: xs, size =>
    match s.fit? x with
    | none => .error ⟨order, .operandKind op position⟩
    | some content =>
      match fill order op (position + 1) slots xs (Nat.succ.inj size) with
      | .error e => .error e
      | .ok contents => .ok (content, contents)

/-- The operands of an instruction for an opcode: their number is checked first, then each of
them. -/
def check (op : Opcode) (i : Instruction) : Except Fault (Operands op) :=
  if size : i.operands.length = op.signature.length then
    (fill i.order op 1 op.signature i.operands size).map (⟨i.order, ·⟩)
  else .error ⟨i.order, .operandCount op i.operands.length⟩

end Operands

end FrameCode
