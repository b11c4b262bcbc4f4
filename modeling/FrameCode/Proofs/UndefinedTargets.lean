import FrameCode.CommandLine.Session
import FrameCode.Proofs.DefinedLabels
import FrameCode.Proofs.LabelIndex
import FrameCode.Proofs.Ordering
import FrameCode.Proofs.ValidProgram
import FrameCode.Xml.Tree

/-!
# Undefined targets

Calls and jumps go to the label in their first operand; a target is undefined if no instruction of
the program defines it.  The scan for undefined labels finds all undefined targets, but it looks
at more: at every label among the operands of every instruction that is no definition, whether its
opcode goes to a label or not, and whether it has an opcode at all.

`labelsUsed_eq` divides the labels that the scan looks at into the target and the misplaced ones,
and `undefinedLabels_of_ordered` says what the scan reports and for which programs these are the
undefined targets alone.
-/

namespace FrameCode

/-! ## Targets -/

/-- The label that an operand is. -/
def Operand.label? : Operand → Option String
  | label name => some name
  | _ => none

/-- The opcodes that go to the label in their first operand. -/
def Opcode.goesToLabel (op : Opcode) : Bool := [call, jump, jumpIfEq, jumpIfNeq].contains op

namespace Instruction

/-- The instruction is a call or a jump. -/
def isTransfer (i : Instruction) : Bool := i.opcode?.any Opcode.goesToLabel

/-- The label that a call or a jump goes to. -/
def targetLabel? (i : Instruction) : Option String :=
  if i.isTransfer then i.operands.head?.bind Operand.label? else none

/-- The labels among the operands of an instruction that neither defines them nor goes to them. -/
def misplacedLabels (i : Instruction) : List String :=
  if i.opcode? = some .label then []
  else (if i.isTransfer then i.operands.tail else i.operands).filterMap Operand.label?

/-- The scan looks at the target of an instruction and at its misplaced labels. -/
theorem labelsUsed_eq (i : Instruction) :
    i.labelsUsed = i.targetLabel?.toList ++ i.misplacedLabels := by
  have scanned : i.labelsUsed =
      if i.opcode? = some .label then [] else i.operands.filterMap Operand.label? := by
    rw [labelsUsed]
    rfl
  rw [scanned, targetLabel?, misplacedLabels]
  by_cases definition : i.opcode? = some .label
  · have other : i.isTransfer = false := by
      rw [isTransfer, definition]
      rfl
    simp [definition, other]
  · rw [if_neg definition, if_neg definition]
    cases i.isTransfer with
    | false => rfl
    | true =>
      cases i.operands with
      | nil => rfl
      | cons x xs =>
        cases label : x.label? with
        | none => simp [label]
        | some name => simp [label]

end Instruction

/-! ## Labels that the scan reports -/

section Lists

variable {α β : Type} (f g : α → List β)

theorem sublist_flatMap_append (as : List α) :
    (as.flatMap f).Sublist (as.flatMap fun a => f a ++ g a) := by
  induction as with
  | nil => exact .slnil
  | cons a as ih =>
    rw [List.flatMap_cons, List.flatMap_cons]
    exact (List.sublist_append_left (f a) (g a)).append ih

/-- Parts that are added to a joined list change it unless they are empty. -/
theorem flatMap_append_eq_iff {as : List α} :
    (as.flatMap fun a => f a ++ g a) = as.flatMap f ↔ ∀ a ∈ as, g a = [] := by
  constructor
  · intro same
    induction as with
    | nil => exact nofun
    | cons a as ih =>
      rw [List.flatMap_cons, List.flatMap_cons, List.append_assoc,
        List.append_cancel_left_eq] at same
      have shorter := (sublist_flatMap_append f g as).length_le
      have size := congrArg List.length same
      rw [List.length_append] at size
      obtain empty : g a = [] := List.length_eq_zero_iff.1 (by omega)
      rw [empty, List.nil_append] at same
      exact List.forall_mem_cons.2 ⟨empty, ih same⟩
  · intro empty
    refine List.flatMap_congr fun a mem => ?_
    rw [empty a mem, List.append_nil]

end Lists

namespace Program

/-- The labels among the given ones that no instruction defines, with the order number
of an instruction. -/
def undefinedAmong (p : Program) (i : Instruction) (names : List String) : List (Nat × String) :=
  (names.filter fun name => !decide (p.Defines name)).map fun name => (i.order, name)

/-- The targets of calls and jumps that no instruction defines, with the order numbers of the
calls and jumps. -/
def undefinedTargets (p : Program) : List (Nat × String) :=
  p.instructions.flatMap fun i => p.undefinedAmong i i.targetLabel?.toList

variable {p q : Program} {i : Instruction} {name : String}

theorem mem_undefinedAmong_iff {order : Nat} {names : List String} :
    (order, name) ∈ p.undefinedAmong i names ↔
    i.order = order ∧ name ∈ names ∧ ¬p.Defines name := by
  simp [undefinedAmong, and_comm, and_assoc]

theorem undefinedAmong_eq_nil_iff {names : List String} :
    p.undefinedAmong i names = [] ↔ ∀ name ∈ names, p.Defines name := by
  simp [undefinedAmong, List.filter_eq_nil_iff]

theorem undefinedLabels_eq_flatMap (p : Program) :
    p.undefinedLabels = p.instructions.flatMap fun i => p.undefinedAmong i i.labelsUsed := by
  have scanned (name : String) :
      (!(Labels.build p).1.contains name) = !decide (p.Defines name) := by
    rw [Bool.not_inj_iff, Bool.eq_iff_iff, Labels.contains_build_iff, decide_eq_true_iff]
  simp only [undefinedLabels, scanned]
  rfl

/-- Apart from undefined targets, the scan reports the undefined ones of the misplaced labels. -/
theorem undefinedLabels_eq_append (p : Program) :
    p.undefinedLabels = p.instructions.flatMap fun i =>
      p.undefinedAmong i i.targetLabel?.toList ++ p.undefinedAmong i i.misplacedLabels := by
  rw [undefinedLabels_eq_flatMap]
  simp only [Instruction.labelsUsed_eq, undefinedAmong, List.filter_append, List.map_append]

theorem undefinedTargets_sublist (p : Program) :
    p.undefinedTargets.Sublist p.undefinedLabels := by
  rw [undefinedLabels_eq_append]
  exact sublist_flatMap_append _ _ _

/-- The scan reports undefined targets alone just if every misplaced label is defined. -/
theorem undefinedLabels_eq_undefinedTargets_iff :
    p.undefinedLabels = p.undefinedTargets ↔
      ∀ i ∈ p.instructions, ∀ name ∈ i.misplacedLabels, p.Defines name := by
  rw [undefinedLabels_eq_append, undefinedTargets, flatMap_append_eq_iff]
  simp only [undefinedAmong_eq_nil_iff]

theorem mem_undefinedLabels_iff {order : Nat} :
    (order, name) ∈ p.undefinedLabels ↔ ∃ i ∈ p.instructions, i.order = order ∧
      i.opcode? ≠ some .label ∧ .label name ∈ i.operands ∧ ¬p.Defines name := by
  rw [undefinedLabels_eq_flatMap, List.mem_flatMap]
  simp only [mem_undefinedAmong_iff, Instruction.mem_labelsUsed_iff, and_assoc]

/-- What the scan reports comes in the order of the instructions. -/
theorem pairwise_undefinedLabels (increasing : Increasing p.instructions) :
    p.undefinedLabels.Pairwise fun one other => one.1 ≤ other.1 := by
  rw [undefinedLabels_eq_flatMap, List.pairwise_flatMap]
  constructor
  · intro i _
    refine List.pairwise_iff_forall_sublist.2 fun {one other} both => ?_
    have first := (mem_undefinedAmong_iff.1 (both.subset List.mem_cons_self)).1
    have second := (mem_undefinedAmong_iff.1
      (both.subset (List.mem_cons_of_mem _ List.mem_cons_self))).1
    exact Nat.le_of_eq (first.symm.trans second)
  · refine increasing.imp fun less one first other second => ?_
    rw [← (mem_undefinedAmong_iff.1 first).1, ← (mem_undefinedAmong_iff.1 second).1]
    exact Nat.le_of_lt less

theorem defines_of_ordered (ordered : p.ordered = .ok q) : q.Defines name ↔ p.Defines name := by
  simp only [Defines, mem_of_ordered ordered]

end Program

/-! ## Valid programs -/

theorem Slot.eq_label_of_admits {s : Slot} {x : Operand} {name : String} (admits : s.Admits x)
    (label : x.label? = some name) : s = .label := by
  cases admits with
  | label => rfl
  | _ => cases label

/-- Operands for positions that ask for no label are no labels. -/
theorem Slot.filterMap_label?_of_admits {slots : List Slot} {xs : List Operand}
    (admits : List.Forall₂ Slot.Admits slots xs) (unlabelled : .label ∉ slots) :
    xs.filterMap Operand.label? = [] := by
  induction admits with
  | nil => rfl
  | @cons s x slots xs first _ ih =>
    obtain ⟨other, others⟩ := not_or.1 (mt List.mem_cons.2 unlabelled)
    cases label : x.label? with
    | none => rw [List.filterMap_cons_none label, ih others]
    | some name => exact absurd (Slot.eq_label_of_admits first label).symm other

namespace Opcode

theorem label_not_mem_tail (op : Opcode) : .label ∉ op.signature.tail := by
  cases op <;> decide

theorem label_not_mem_signature {op : Opcode} (other : op ≠ .label)
    (stays : op.goesToLabel = false) :
    .label ∉ op.signature := by
  revert other stays
  cases op <;> decide

end Opcode

/-- A valid instruction has no label but the one that it defines or goes to. -/
theorem Instruction.Valid.misplacedLabels_eq {i : Instruction} (valid : i.Valid) :
    i.misplacedLabels = [] := by
  obtain ⟨op, named, admits⟩ := valid
  have known : i.opcode? = some op := congrArg Mnemonic.opcode? named
  rw [misplacedLabels, isTransfer, known, Option.any_some]
  split
  · rfl
  · next other =>
    have other : op ≠ .label := fun eq => other (congrArg some eq)
    split
    · have later : List.Forall₂ Slot.Admits op.signature.tail i.operands.tail := by
        rw [← List.drop_one, ← List.drop_one]
        exact List.forall₂_drop 1 admits
      exact Slot.filterMap_label?_of_admits later op.label_not_mem_tail
    · next stays =>
      exact Slot.filterMap_label?_of_admits admits
        (Opcode.label_not_mem_signature other (Bool.eq_false_iff.2 stays))

/-! ## The check -/

namespace CommandLine

theorem check_status_eq_iff {parse : Xml.Parser} {files : String → Entry} {path : String}
    {q : Program} (loaded : loadOrdered parse files path = .ok q) :
    (check parse files path).status = 52 ↔ q.undefinedLabels ≠ [] := by
  unfold check
  rw [loaded]
  cases undefined : q.undefinedLabels with
  | nil => simp only [undefined, ne_eq, not_true_eq_false, iff_false]; decide
  | cons first others => simp only [undefined]; simp [Cause.status]

end CommandLine

/-- **What the scan of a program reports**: the undefined labels among the operands of all
instructions that are no definitions, in the order of the instructions, and the check refuses a
program with one of them.  All undefined targets of calls and jumps are reported.  Nothing else is
just if every misplaced label is defined, as in a valid program, which has no misplaced labels. -/
theorem Program.undefinedLabels_of_ordered {p q : Program} (ordered : p.ordered = .ok q) :
    (∀ order name, (order, name) ∈ q.undefinedLabels ↔ ∃ i ∈ p.instructions, i.order = order ∧
      i.opcode? ≠ some .label ∧ .label name ∈ i.operands ∧ ¬p.Defines name) ∧
    q.undefinedLabels.Pairwise (fun one other => one.1 ≤ other.1) ∧
    q.undefinedTargets.Sublist q.undefinedLabels ∧
    (q.undefinedLabels = q.undefinedTargets ↔
      ∀ i ∈ p.instructions, ∀ name ∈ i.misplacedLabels, p.Defines name) ∧
    (p.Valid → q.undefinedLabels = q.undefinedTargets) ∧
    ∀ (parse : Xml.Parser) (files : String → CommandLine.Entry) (path : String),
      CommandLine.loadOrdered parse files path = .ok q →
      ((CommandLine.check parse files path).status = 52 ↔ q.undefinedLabels ≠ []) := by
  have alone : q.undefinedLabels = q.undefinedTargets ↔
      ∀ i ∈ p.instructions, ∀ name ∈ i.misplacedLabels, p.Defines name := by
    simp only [undefinedLabels_eq_undefinedTargets_iff, defines_of_ordered ordered,
      mem_of_ordered ordered]
  refine ⟨fun order name => ?_, pairwise_undefinedLabels (ordered_eq_ok_iff.1 ordered).2.1,
    undefinedTargets_sublist q, alone, fun valid => alone.2 fun i mem name misplaced => ?_,
    fun parse files path => CommandLine.check_status_eq_iff⟩
  · rw [mem_undefinedLabels_iff]
    simp only [defines_of_ordered ordered, mem_of_ordered ordered]
  · rw [(valid i mem).misplacedLabels_eq] at misplaced
    cases misplaced

/-- An undefined target before a defined one, and two labels that nothing goes to: one of an
instruction without an opcode, one behind a target.  The valid one of the instructions has just
the undefined target. -/
theorem Program.undefinedLabels_of_ordered_misplaced :
    let call : Instruction := ⟨.known .call, [.label "b"], 2⟩
    let p : Program := ⟨[⟨.known .jump, [.label "a", .label "c"], 9⟩,
        ⟨.unknown "GOTO", [.label "d"], 4⟩,
      call, ⟨.known .label, [.label "a"], 6⟩]⟩
    let q : Program := ⟨[call, ⟨.unknown "GOTO", [.label "d"], 4⟩,
        ⟨.known .label, [.label "a"], 6⟩,
      ⟨.known .jump, [.label "a", .label "c"], 9⟩]⟩
    p.ordered = .ok q ∧ q.undefinedTargets = [(2, "b")] ∧
      q.undefinedLabels = [(2, "b"), (4, "d"), (9, "c")] ∧
      q.undefinedLabels ≠ q.undefinedTargets ∧
      (∃ i ∈ p.instructions, "d" ∈ i.misplacedLabels ∧ ¬p.Defines "d") ∧
      (∀ parse files path, CommandLine.loadOrdered parse files path = .ok q →
        (CommandLine.check parse files path).status = 52) ∧
      Program.ordered ⟨[call]⟩ = .ok ⟨[call]⟩ ∧ Program.Valid ⟨[call]⟩ ∧
      Program.undefinedLabels ⟨[call]⟩ = Program.undefinedTargets ⟨[call]⟩ := by
  intro call p q
  have ordered : p.ordered = .ok q := by decide
  obtain ⟨-, -, -, alone, -, refused⟩ := undefinedLabels_of_ordered ordered
  have misplaced : ∃ i ∈ p.instructions, "d" ∈ i.misplacedLabels ∧ ¬p.Defines "d" := by decide
  have single : Program.ordered ⟨[call]⟩ = .ok ⟨[call]⟩ := by decide
  have fits : call.Valid := ⟨.call, rfl, .cons (.label (by decide)) .nil⟩
  have valid : Program.Valid ⟨[call]⟩ := fun i mem => List.mem_singleton.1 mem ▸ fits
  obtain ⟨-, -, -, -, agree, -⟩ := undefinedLabels_of_ordered single
  refine ⟨ordered, by decide, by decide, fun same => ?_, misplaced,
    fun parse files path loaded =>
      (refused parse files path loaded).2 (by decide), single, valid, agree valid⟩
  obtain ⟨i, mem, inside, undefined⟩ := misplaced
  exact undefined (alone.1 same i mem "d" inside)

/-- The scan does not report undefined targets alone: a document with an instruction that has no
opcode is refused for its label. -/
theorem Program.not_forall_undefinedLabels_eq_targets :
    ¬∀ (text : String) (p q : Program), ofXml Xml.parse? text = .ok p → p.ordered = .ok q →
      q.undefinedLabels = q.undefinedTargets := by
  intro law
  let text := "<program language=\"IPPcode24\"><instruction order=\"1\" opcode=\"GOTO\">"
    ++ "<arg1 type=\"label\">x</arg1></instruction></program>"
  let p : Program := ⟨[⟨.unknown "GOTO", [.label "x"], 1⟩]⟩
  have read : ofXml Xml.parse? text = .ok p := by decide +kernel
  have ordered : p.ordered = .ok p := by decide
  have undefined : p.undefinedLabels ≠ p.undefinedTargets := by decide
  exact undefined (law text p p read ordered)

end FrameCode
