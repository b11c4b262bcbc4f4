import FrameCode.Program
import FrameCode.Proofs.StoredText
import Mathlib.Data.List.Forall2

/-!
# Sameness of programs

`same` compares values, operands, instructions and programs with strings taken as the characters
they denote.  For lists it is the pointwise relation, and a canonical form is the same as what it
was made of.
-/

namespace FrameCode

theorem all_zip_iff_forall₂ {α : Type} {test : α → α → Bool} {xs ys : List α} :
    (xs.length == ys.length && (xs.zip ys).all fun (x, y) => test x y) = true ↔
      List.Forall₂ (fun x y => test x y = true) xs ys := by
  simp only [Bool.and_eq_true, beq_iff_eq, List.all_eq_true, List.forall₂_iff_zip, Prod.forall]

theorem forall_of_forall₂ {α β : Type} {P : β → Prop} {xs : List α} {ys : List β}
    (related : List.Forall₂ (fun _ y => P y) xs ys) : ∀ y ∈ ys, P y := by
  induction related with
  | nil => exact List.forall_mem_nil P
  | cons first _ ih => exact List.forall_mem_cons.2 ⟨first, ih⟩

theorem Instruction.same_iff {i j : Instruction} :
    i.same j = true ↔ i.mnemonic = j.mnemonic ∧ i.order = j.order ∧
      List.Forall₂ (fun x y => Operand.same x y = true) i.operands j.operands := by
  rw [← all_zip_iff_forall₂, Instruction.same, Bool.and_assoc, Bool.and_assoc, Bool.and_eq_true,
    Bool.and_eq_true, beq_iff_eq, beq_iff_eq]

theorem Program.same_iff {p q : Program} :
    p.same q = true ↔
      List.Forall₂ (fun i j => Instruction.same i j = true) p.instructions q.instructions :=
  all_zip_iff_forall₂

/-! ## Canonical forms -/

/-- Values that are the same have one canonical form. -/
theorem Value.canonical_eq_of_same {v w : Value} (same : v.same w = true) :
    v.canonical = w.canonical := by
  cases v <;> cases w <;> first | cases same | skip
  · exact congrArg Value.int (beq_iff_eq.1 same)
  · exact congrArg Value.bool (beq_iff_eq.1 same)
  · exact congrArg Value.ofChars (beq_iff_eq.1 same)
  · rfl

/-- Operands that are the same have one canonical form. -/
theorem Operand.canonical_eq_of_same {x y : Operand} (same : x.same y = true) :
    x.canonical = y.canonical := by
  cases x <;> cases y <;> first | cases same | skip
  · exact congrArg Operand.literal (Value.canonical_eq_of_same same)
  · exact congrArg Operand.place (beq_iff_eq.1 same)
  · exact congrArg Operand.label (beq_iff_eq.1 same)
  · exact congrArg Operand.type (beq_iff_eq.1 same)

/-- The canonical form of a string denotes the same characters. -/
theorem Value.chars_ofList_encode (cs : List Char) :
    Value.chars (String.ofList (Text.Escape.encode cs)) = cs := by
  rw [Value.chars, String.toList_ofList, Text.Escape.decode_encode]

theorem Value.canonical_same (v : Value) : v.canonical.same v = true := by
  cases v with
  | int n => exact beq_self_eq_true n
  | bool b => exact beq_self_eq_true b
  | str stored => exact beq_iff_eq.2 (Value.chars_ofList_encode _)
  | nil => rfl

theorem Value.canonical_canonical (v : Value) : v.canonical.canonical = v.canonical := by
  cases v with
  | str stored => exact congrArg Value.ofChars (Value.chars_ofList_encode _)
  | _ => rfl

theorem Operand.canonical_same (x : Operand) : x.canonical.same x = true := by
  cases x with
  | literal v => exact Value.canonical_same v
  | place p => exact beq_self_eq_true p
  | label name => exact beq_self_eq_true name
  | type name => exact beq_self_eq_true name

theorem Operand.canonical_canonical (x : Operand) : x.canonical.canonical = x.canonical := by
  cases x with
  | literal v => exact congrArg Operand.literal (Value.canonical_canonical v)
  | _ => rfl

theorem Instruction.canonical_same (i : Instruction) : i.canonical.same i = true := by
  refine Instruction.same_iff.2 ⟨rfl, rfl, List.forall₂_map_left_iff.2 ?_⟩
  exact List.forall₂_same.2 fun x _ => Operand.canonical_same x

theorem Instruction.canonical_canonical (i : Instruction) :
    i.canonical.canonical = i.canonical := by
  simp only [Instruction.canonical, List.map_map]
  exact congrArg (Instruction.mk i.mnemonic · i.order)
    (List.map_congr_left fun x _ => Operand.canonical_canonical x)

end FrameCode
