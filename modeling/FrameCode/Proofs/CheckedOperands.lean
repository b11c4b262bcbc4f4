import FrameCode.Instruction
import FrameCode.Machine.Operands
import Mathlib.Data.List.Forall2

/-!
# Checked operands

The check of the operands of an instruction only sorts them by the kinds of their positions:
`check_eq_ok_iff` says that it succeeds just on the operands which its result is made of.  So
the operands of an instruction can be read off the contents that it is executed with, and the
other way round.

An instruction fits its opcode if it also names no type that cannot be read.
-/

namespace FrameCode

/-! ## Contents and operands -/

/-- The operand that the content of a position is taken from. -/
def Slot.operand : (s : Slot) → s.Content → Operand
  | .place, p => .place p
  | .symbol, x => x
  | .label, name => .label name
  | .type, name => .type name

theorem Slot.fit?_eq_some_iff {s : Slot} {x : Operand} {content : s.Content} :
    s.fit? x = some content ↔ x = s.operand content := by
  constructor
  · intro fits
    cases s <;> cases x <;> cases fits <;> rfl
  · rintro rfl
    cases s <;> rfl

/-- The operands that the contents of the positions are taken from. -/
def Contents.toList : (slots : List Slot) → Contents slots → List Operand
  | [], () => []
  | s :: slots, (content, contents) => s.operand content :: toList slots contents

theorem Contents.length_toList (slots : List Slot) (contents : Contents slots) :
    (toList slots contents).length = slots.length := by
  induction slots with
  | nil => rfl
  | cons s slots ih => exact congrArg (· + 1) (ih contents.2)

namespace Operands

/-- The operands that checked operands are taken from. -/
def toList {op : Opcode} (xs : Operands op) : List Operand := xs.contents.toList op.signature

variable {op : Opcode} {i : Instruction}

theorem fill_eq_ok_iff {order position : Nat} {slots : List Slot} {xs : List Operand}
    {size : xs.length = slots.length} {contents : Contents slots} :
    fill order op position slots xs size = .ok contents ↔ xs = contents.toList slots := by
  induction slots generalizing xs position with
  | nil =>
    obtain rfl := List.length_eq_zero_iff.1 size
    exact ⟨fun _ => rfl, fun _ => rfl⟩
  | cons s slots ih =>
    obtain ⟨x, rest, rfl⟩ := List.exists_cons_of_length_eq_add_one size
    obtain ⟨content, contents⟩ := contents
    have others : fill order op (position + 1) slots rest (Nat.succ.inj size) = .ok contents ↔
        rest = contents.toList slots := ih
    rw [Contents.toList, List.cons.injEq, ← others, ← Slot.fit?_eq_some_iff, fill]
    cases s.fit? x with
    | none => simp
    | some c => cases fill order op (position + 1) slots rest (Nat.succ.inj size) <;> simp

/-- The check succeeds just on the operands that its result is taken from, and the result has the
order number of the instruction. -/
theorem check_eq_ok_iff {xs : Operands op} :
    check op i = .ok xs ↔ xs.order = i.order ∧ i.operands = xs.toList := by
  obtain ⟨order, contents⟩ := xs
  unfold check
  split
  · next size =>
    have filled : fill i.order op 1 op.signature i.operands size = .ok contents ↔ _ :=
      fill_eq_ok_iff
    rw [toList, ← filled]
    cases fill i.order op 1 op.signature i.operands size with
    | ok found => simp [Except.map, eq_comm]
    | error e => simp [Except.map]
  · next other =>
    constructor
    · rintro ⟨⟩
    · rintro ⟨-, operands⟩
      exact absurd (operands ▸ contents.length_toList op.signature) other

theorem order_of_check {xs : Operands op} (checked : check op i = .ok xs) : xs.order = i.order :=
  (check_eq_ok_iff.1 checked).1

theorem toList_of_check {xs : Operands op} (checked : check op i = .ok xs) :
    i.operands = xs.toList :=
  (check_eq_ok_iff.1 checked).2

/-- Operands that contents are taken from pass the check with them. -/
theorem check_of_toList {contents : Contents op.signature}
    (operands : i.operands = contents.toList op.signature) :
    check op i = .ok ⟨i.order, contents⟩ :=
  check_eq_ok_iff.2 ⟨rfl, operands⟩

/-! ## Refused operands -/

theorem fill_eq_error {order position : Nat} {slots : List Slot} {xs : List Operand}
    {size : xs.length = slots.length} {e : Fault}
    (refused : fill order op position slots xs size = .error e) :
    ∃ n, e = ⟨order, .operandKind op n⟩ := by
  induction slots generalizing xs position with
  | nil =>
    obtain rfl := List.length_eq_zero_iff.1 size
    cases refused
  | cons s slots ih =>
    obtain ⟨x, rest, rfl⟩ := List.exists_cons_of_length_eq_add_one size
    unfold fill at refused
    split at refused
    · cases refused
      exact ⟨position, rfl⟩
    · split at refused
      · next deeper =>
        cases refused
        exact ih deeper
      · cases refused

/-- Operands are refused for their number or for the kind of one of them, and the refusal names
the instruction they belong to. -/
theorem check_eq_error {e : Fault} (refused : check op i = .error e) :
    e = ⟨i.order, .operandCount op i.operands.length⟩ ∨
    ∃ n, e = ⟨i.order, .operandKind op n⟩ := by
  unfold check at refused
  split at refused
  · next size =>
    cases filled : fill i.order op 1 op.signature i.operands size with
    | ok contents =>
      rw [filled] at refused
      cases refused
    | error cause =>
      rw [filled] at refused
      cases refused
      exact .inr (fill_eq_error filled)
  · cases refused
    exact .inl rfl

end Operands

/-! ## Instructions that fit their opcode -/

/-- The operands that an opcode can work on at a position: all of the kind of the position, but of
the names of types only those of readable ones. -/
inductive Slot.Takes : Slot → Operand → Prop
  | place {p : Place} : Slot.Takes .place (.place p)
  | symbol {x : Operand} : Slot.Takes .symbol x
  | label {name : String} : Slot.Takes .label (.label name)
  | type {name : String} : (ValueType.ofName? name).any ValueType.readable = true →
    Slot.Takes .type (.type name)

/-- The instruction has no opcode, or just the operands that its opcode can work on. -/
def Instruction.Fits (i : Instruction) : Prop :=
  ∀ op, i.opcode? = some op → List.Forall₂ Slot.Takes op.signature i.operands

theorem Contents.exists_eq_toList {slots : List Slot} {xs : List Operand}
    (takes : List.Forall₂ Slot.Takes slots xs) : ∃ contents, xs = toList slots contents := by
  induction takes with
  | nil => exact ⟨(), rfl⟩
  | @cons s x slots xs first _ ih =>
    obtain ⟨contents, rfl⟩ := ih
    have content : ∃ content, x = s.operand content := by
      cases first <;> exact ⟨_, rfl⟩
    obtain ⟨content, rfl⟩ := content
    exact ⟨(content, contents), rfl⟩

/-- Operands that an opcode can work on pass its check. -/
theorem Operands.check_of_takes {op : Opcode} {i : Instruction}
    (takes : List.Forall₂ Slot.Takes op.signature i.operands) :
    ∃ xs, Operands.check op i = .ok xs := by
  obtain ⟨contents, operands⟩ := Contents.exists_eq_toList takes
  exact ⟨_, check_of_toList operands⟩

theorem Opcode.type_mem_signature {op : Opcode} : .type ∈ op.signature ↔ op = .read := by
  cases op <;> decide

/-- An opcode without a position for a type can work on all operands that pass its check. -/
theorem Slot.takes_toList {slots : List Slot} (untyped : .type ∉ slots)
    (contents : Contents slots) :
    List.Forall₂ Slot.Takes slots (contents.toList slots) := by
  induction slots with
  | nil => exact .nil
  | cons s slots ih =>
    obtain ⟨other, others⟩ := not_or.1 (mt List.mem_cons.2 untyped)
    obtain ⟨content, contents⟩ := contents
    refine .cons ?_ (ih others contents)
    cases s with
    | place => exact .place
    | symbol => exact .symbol
    | label => exact .label
    | type => exact absurd rfl other

end FrameCode
