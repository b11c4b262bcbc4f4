import FrameCode.Proofs.LabelIndex
import FrameCode.Proofs.Ordering
import Mathlib.Data.List.Count

/-!
# Idle instructions

An instruction is idle if it has no opcode or is a dump without operands: nothing that a program
can see depends on it.  A program can be put in order without its idle instructions as well, and
`Program.workBefore` says where its positions are then.  An instruction that is not idle is found
at the image of its position, and a label stands at the image of its position.
-/

namespace FrameCode

/-- The instruction has no opcode, or is a dump without operands. -/
def Instruction.isIdle (i : Instruction) : Bool :=
  match i.opcode? with
  | none => true
  | some op => op == .break && i.operands.isEmpty

namespace Instruction

variable {i : Instruction}

theorem isIdle_iff :
    i.isIdle = true ↔ i.opcode? = none ∨ (i.opcode? = some .break ∧ i.operands = []) := by
  unfold isIdle
  cases i.opcode? <;> simp

/-- An instruction that is not idle has an opcode, and if it is a dump then with operands. -/
theorem exists_opcode_of_not_idle (working : i.isIdle = false) :
    ∃ op, i.opcode? = some op ∧ (op = .break → i.operands ≠ []) := by
  have busy : i.isIdle ≠ true := Bool.eq_false_iff.1 working
  rw [ne_eq, isIdle_iff, not_or] at busy
  obtain ⟨op, known⟩ := Option.ne_none_iff_exists'.1 busy.1
  refine ⟨op, known, ?_⟩
  rintro rfl empty
  exact busy.2 ⟨known, empty⟩

/-- An idle instruction defines no label. -/
theorem definedLabel?_of_isIdle (idle : i.isIdle = true) : i.definedLabel? = none := by
  rcases isIdle_iff.1 idle with unknown | ⟨dumps, -⟩
  · rw [definedLabel?, unknown]
  · rw [definedLabel?, dumps]

end Instruction

namespace Program

/-- The program without its idle instructions. -/
def withoutIdle (p : Program) : Program := ⟨p.instructions.filter (!·.isIdle)⟩

/-- The number of instructions before a position that are not idle. -/
def workBefore (p : Program) (c : Nat) : Nat := (p.instructions.take c).countP (!·.isIdle)

variable {p s : Program} {is : List Instruction} {i : Instruction} {n : Nat}

/-! ## Positions -/

theorem workBefore_zero (p : Program) : p.workBefore 0 = 0 := rfl

theorem workBefore_succ (found : p.instructions[n]? = some i) :
    p.workBefore (n + 1) = p.workBefore n + if i.isIdle then 0 else 1 := by
  rw [workBefore, workBefore, List.take_add_one, found, Option.toList_some, List.countP_append,
    List.countP_singleton]
  cases i.isIdle <;> rfl

/-- The image of the end, and of what is past it, is the end. -/
theorem workBefore_of_length_le (past : p.instructions.length ≤ n) :
    p.workBefore n = p.withoutIdle.instructions.length := by
  rw [workBefore, List.take_of_length_le past, List.countP_eq_length_filter]
  rfl

/-- Positions in a part of the program have the same images in the whole. -/
theorem workBefore_append_of_le {js : List Instruction} (inside : n ≤ is.length) :
    workBefore ⟨is ++ js⟩ n = workBefore ⟨is⟩ n := by
  rw [workBefore, workBefore, List.take_append_of_le_length inside]

/-- An instruction that is not idle is found again at the image of its position. -/
theorem getElem?_withoutIdle (found : p.instructions[n]? = some i) (working : i.isIdle = false) :
    p.withoutIdle.instructions[p.workBefore n]? = some i := by
  obtain ⟨inside, rfl⟩ := List.getElem?_eq_some_iff.1 found
  have parts : p.instructions = p.instructions.take n ++ p.instructions[n] ::
      p.instructions.drop (n + 1) := by
    rw [List.getElem_cons_drop, List.take_append_drop]
  have kept : p.withoutIdle.instructions = (p.instructions.take n).filter (!·.isIdle) ++
      p.instructions[n] :: (p.instructions.drop (n + 1)).filter (!·.isIdle) := by
    refine (congrArg (List.filter (!·.isIdle)) parts).trans ?_
    rw [List.filter_append, List.filter_cons_of_pos (by rw [working]; rfl)]
  rw [kept, workBefore, List.countP_eq_length_filter, List.getElem?_append_right (Nat.le_refl _),
    Nat.sub_self]
  rfl

/-- There is no instruction at the image of the end. -/
theorem getElem?_withoutIdle_of_past (past : p.instructions[n]? = none) :
    p.withoutIdle.instructions[p.workBefore n]? = none := by
  rw [workBefore_of_length_le (List.getElem?_eq_none_iff.1 past)]
  exact List.getElem?_eq_none (Nat.le_refl _)

/-! ## Order and labels -/

/-- A program can be put in order without its idle instructions, which changes nothing else. -/
theorem ordered_withoutIdle (ordered : p.ordered = .ok s) :
    p.withoutIdle.ordered = .ok s.withoutIdle := by
  obtain ⟨perm, increasing, positive⟩ := ordered_eq_ok_iff.1 ordered
  refine ordered_eq_ok_iff.2 ⟨perm.filter _, increasing.filter _, fun i mem => ?_⟩
  exact positive i (List.mem_of_mem_filter mem)

theorem withoutIdle_snoc (is : List Instruction) (i : Instruction) :
    withoutIdle ⟨is ++ [i]⟩ =
      if i.isIdle then withoutIdle ⟨is⟩ else ⟨(withoutIdle ⟨is⟩).instructions ++ [i]⟩ := by
  unfold withoutIdle
  cases idle : i.isIdle <;> simp [idle]

/-- The last definition of a label is found at the image of its position. -/
theorem lookup_labels_withoutIdle (p : Program) (name : String) :
    p.withoutIdle.labels.reverse.lookup name =
      (p.labels.reverse.lookup name).map p.workBefore := by
  obtain ⟨is⟩ := p
  induction is using List.reverseRecOn with
  | nil => rfl
  | append_singleton is i ih =>
    -- Among the earlier instructions nothing has moved.
    replace ih : (withoutIdle ⟨is⟩).labels.reverse.lookup name =
        ((labels ⟨is⟩).reverse.lookup name).map (workBefore ⟨is ++ [i]⟩) := by
      refine ih.trans (Option.map_congr fun c found => ?_)
      obtain ⟨n, defines, rfl⟩ := lookup_reverse_labelsFrom.1 found
      have inside : n < is.length := lt_length_of_labelAt? defines.here
      exact (workBefore_append_of_le (by omega)).symm
    rw [withoutIdle_snoc]
    cases idle : i.isIdle with
    | true =>
      rw [if_pos rfl, ih, labels_snoc, Instruction.definedLabel?_of_isIdle idle]
      simp
    | false =>
      have last : workBefore ⟨is ++ [i]⟩ (is.length + 1) =
          (withoutIdle ⟨is⟩).instructions.length + 1 := by
        rw [workBefore_of_length_le (by simp), withoutIdle_snoc, idle]
        simp
      rw [if_neg Bool.false_ne_true, labels_snoc, labels_snoc, List.reverse_append,
        List.reverse_append, List.lookup_append, List.lookup_append, ih, Option.map_or]
      cases i.definedLabel? with
      | none => rfl
      | some label =>
        by_cases same : name = label
        · simp [same, last]
        · simp [List.lookup_cons, beq_eq_false_iff_ne.2 same]

/-- A label of the program is at the image of its position. -/
theorem resolve?_build_withoutIdle (p : Program) (name : String) :
    (Labels.build p.withoutIdle).1.resolve? name =
      ((Labels.build p).1.resolve? name).map p.workBefore := by
  rw [Labels.resolve?_build, Labels.resolve?_build]
  exact lookup_labels_withoutIdle p name

end Program

end FrameCode
