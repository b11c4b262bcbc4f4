import FrameCode.Proofs.Execution
import Mathlib.Data.List.Basic

/-!
# Footprints of opcodes

`Opcode.changes` lists the parts of the state that an opcode can change.  `execute_sameOutside`
says that no instruction changes more, whatever its operands and whether it fails or not.
-/

namespace FrameCode

/-- The parts of a machine that an instruction can change. -/
inductive Part where
  | memory
  | stack
  | calls
  | position
  | input
  | out
  | diagnostics
  | journal
  deriving DecidableEq, Repr

/-- The parts that an opcode can change. -/
def Opcode.changes : Opcode → List Part
  | .call | .ret => [.calls, .position]
  | .jump | .jumpIfEq | .jumpIfNeq => [.position]
  | .pushs => [.stack]
  | .pops => [.memory, .stack]
  | .read => [.memory, .input, .journal]
  | .write => [.out]
  | .dprint => [.diagnostics]
  | .break => [.diagnostics, .journal]
  | .label | .exit => []
  | .move | .createFrame | .pushFrame | .popFrame | .defvar | .add | .sub | .mul | .idiv | .lt
  | .gt | .eq | .and | .or | .not | .int2char | .stri2int | .concat | .strlen | .getchar
  | .setchar | .type => [.memory]

namespace Machine

/-- The machines agree in everything but the given parts. -/
structure SameOutside (parts : List Part) (m k : Machine) : Prop where
  program : k.program = m.program
  labels : k.labels = m.labels
  order : k.order = m.order
  steps : k.steps = m.steps
  memory : .memory ∉ parts → k.memory = m.memory
  stack : .stack ∉ parts → k.stack = m.stack
  calls : .calls ∉ parts → k.calls = m.calls
  position : .position ∉ parts → k.position = m.position
  input : .input ∉ parts → k.input = m.input
  out : .out ∉ parts → k.out = m.out
  diagnostics : .diagnostics ∉ parts → k.diagnostics = m.diagnostics
  journal : .journal ∉ parts → k.journal = m.journal

variable {parts : List Part} {m k : Machine}

theorem SameOutside.refl (m : Machine) : SameOutside parts m m := by
  constructor <;> intros <;> rfl

/-! ## What an instruction changes -/

theorem SameOutside.withMemory (listed : .memory ∈ parts) (same : SameOutside parts m k)
    (memory : Memory) : SameOutside parts m { k with memory } :=
  { same with memory := fun absent => absurd listed absent }

theorem update_sameOutside (listed : .memory ∈ parts) (same : SameOutside parts m k)
    (done : Except MemoryError Unit × Memory) : SameOutside parts m (k.update done).machine :=
  update_outcome (P := fun o => SameOutside parts m o.machine)
    (fun _ memory _ => same.withMemory listed memory)
    fun memory _ => same.withMemory listed memory

theorem store_sameOutside (listed : .memory ∈ parts) (same : SameOutside parts m k) (p : Place)
    (v : Value) : SameOutside parts m (k.store p v).machine :=
  update_sameOutside listed same _

theorem unary_sameOutside (listed : .memory ∈ parts) (order : Nat) (op : Opcode)
    (f : Value → Except Fault Value) (p : Place) (x : Operand) :
    SameOutside parts m (m.unary order op f p x).machine :=
  attempt_machine (.refl m) fun _ _ => attempt_machine (.refl m) fun v _ =>
    store_sameOutside listed (.refl m) p v

theorem binary_sameOutside (listed : .memory ∈ parts) (order : Nat) (op : Opcode)
    (f : Value → Value → Except Fault Value) (p : Place) (x y : Operand) :
    SameOutside parts m (m.binary order op f p x y).machine :=
  attempt_machine (.refl m) fun _ _ => attempt_machine (.refl m) fun _ _ =>
    attempt_machine (.refl m) fun v _ => store_sameOutside listed (.refl m) p v

theorem setChar_sameOutside (listed : .memory ∈ parts) (order : Nat) (p : Place)
    (x y : Operand) : SameOutside parts m (m.setChar order p x y).machine :=
  access_machine (.refl m) fun _ _ => attempt_machine (.refl m) fun _ _ =>
    attempt_machine (.refl m) fun _ _ => attempt_machine (.refl m) fun v _ =>
      store_sameOutside listed (.refl m) p v

theorem jumpIf_sameOutside (listed : .position ∈ parts) (order : Nat) (op : Opcode)
    (wanted : Bool) (label : String) (x y : Operand) :
    SameOutside parts m (m.jumpIf order op wanted label x y).machine := by
  refine attempt_machine (.refl m) fun position _ => attempt_machine (.refl m) fun _ _ =>
    attempt_machine (.refl m) fun _ _ => attempt_machine (.refl m) fun equal _ => ?_
  show SameOutside parts m (if equal = wanted then { m with position } else m)
  split
  · exact { SameOutside.refl m with position := fun absent => absurd listed absent }
  · exact .refl m

theorem readLine_sameOutside (input : .input ∈ parts) (journal : .journal ∈ parts) :
    SameOutside parts m m.readLine.2 := by
  simp only [readLine]
  split
  · exact { SameOutside.refl m with
      input := fun absent => absurd input absent
      journal := fun absent => absurd journal absent }
  · exact { SameOutside.refl m with input := fun absent => absurd input absent }

theorem read_sameOutside (p : Place) (type : String) :
    SameOutside (Opcode.changes .read) m (m.read p type).machine := by
  have line : SameOutside (Opcode.changes .read) m m.readLine.2 :=
    readLine_sameOutside (by decide) (by decide)
  rw [read_eq]
  split
  · exact store_sameOutside List.mem_cons_self line p _
  · exact .refl m

theorem write_sameOutside (order : Nat) (x : Operand) :
    SameOutside (Opcode.changes .write) m (m.write order x).machine := by
  refine attempt_machine (.refl m) fun v _ => ?_
  split <;> exact { SameOutside.refl m with out := fun absent => absurd (by decide) absent }

theorem dprint_sameOutside (order : Nat) (x : Operand) :
    SameOutside (Opcode.changes .dprint) m (m.dprint order x).machine := by
  refine attempt_machine (.refl m) fun v _ => ?_
  split <;>
    exact { SameOutside.refl m with diagnostics := fun absent => absurd (by decide) absent }

theorem writeDump_sameOutside (m : Machine) :
    SameOutside (Opcode.changes .break) m m.writeDump := by
  unfold writeDump
  split
  · exact { SameOutside.refl m with diagnostics := fun absent => absurd (by decide) absent }
  · exact { SameOutside.refl m with
      diagnostics := fun absent => absurd (by decide) absent
      journal := fun absent => absurd (by decide) absent }

/-- An instruction changes nothing outside the footprint of its opcode. -/
theorem execute_sameOutside (m : Machine) (op : Opcode) (xs : Operands op) :
    SameOutside op.changes m (m.execute op xs).machine := by
  cases op with
  | move =>
    obtain ⟨order, p, x, ⟨⟩⟩ := xs
    exact attempt_machine (.refl m) fun v _ => store_sameOutside List.mem_cons_self (.refl m) p v
  | createFrame => exact (SameOutside.refl m).withMemory List.mem_cons_self _
  | pushFrame | popFrame | defvar =>
    exact update_sameOutside List.mem_cons_self (.refl m) _
  | call =>
    refine attempt_machine (.refl m) fun position _ => ?_
    exact { SameOutside.refl m with
      calls := fun absent => absurd (by decide) absent
      position := fun absent => absurd (by decide) absent }
  | ret =>
    cases pushed : m.calls with
    | nil =>
      rw [execute_ret_nil pushed]
      exact .refl m
    | cons position calls =>
      rw [execute_ret_cons pushed]
      exact { SameOutside.refl m with
        calls := fun absent => absurd (by decide) absent
        position := fun absent => absurd (by decide) absent }
  | pushs =>
    refine attempt_machine (.refl m) fun v _ => ?_
    exact { SameOutside.refl m with stack := fun absent => absurd (by decide) absent }
  | pops =>
    obtain ⟨order, p, ⟨⟩⟩ := xs
    cases pushed : m.stack with
    | nil =>
      rw [execute_pops_nil pushed]
      exact .refl m
    | cons v stack =>
      rw [execute_pops_cons pushed]
      refine store_sameOutside List.mem_cons_self ?_ p v
      exact { SameOutside.refl m with stack := fun absent => absurd (by decide) absent }
  | read => exact read_sameOutside _ _
  | write => exact write_sameOutside _ _
  | dprint => exact dprint_sameOutside _ _
  | «break» => exact writeDump_sameOutside m
  | setchar => exact setChar_sameOutside List.mem_cons_self _ _ _ _
  | type =>
    obtain ⟨order, p, x, ⟨⟩⟩ := xs
    exact attempt_machine (.refl m) fun v _ => store_sameOutside List.mem_cons_self (.refl m) p _
  | label => exact .refl m
  | jump =>
    refine attempt_machine (.refl m) fun position _ => ?_
    exact { SameOutside.refl m with position := fun absent => absurd (by decide) absent }
  | jumpIfEq => exact jumpIf_sameOutside List.mem_cons_self _ _ _ _ _ _
  | jumpIfNeq => exact jumpIf_sameOutside List.mem_cons_self _ _ _ _ _ _
  | exit =>
    exact attempt_machine (.refl m) fun _ _ => attempt_machine (.refl m) fun _ _ => .refl m
  | not => exact unary_sameOutside List.mem_cons_self _ _ _ _ _
  | int2char => exact unary_sameOutside List.mem_cons_self _ _ _ _ _
  | strlen => exact unary_sameOutside List.mem_cons_self _ _ _ _ _
  | add | sub | mul | idiv | lt | gt | eq | and | or | stri2int | concat | getchar =>
    exact binary_sameOutside List.mem_cons_self _ _ _ _ _ _

/-- A step keeps the program and its labels, and the machine has the order number of
its instruction then. -/
theorem step_fetched {i : Instruction} (fetched : m.fetch? = some i) :
    m.step.machine.program = m.program ∧ m.step.machine.labels = m.labels ∧
      m.step.machine.order = i.order := by
  cases known : i.opcode? with
  | none =>
    rw [step_of_unknown fetched known]
    exact ⟨rfl, rfl, rfl⟩
  | some op =>
    rw [step_of_known fetched known]
    refine attempt_machine (P := fun k => k.program = m.program ∧ k.labels = m.labels ∧
      k.order = i.order) ⟨rfl, rfl, rfl⟩ fun xs _ => ?_
    have same := execute_sameOutside (m.dispatch i) op xs
    exact ⟨same.program, same.labels, same.order⟩

/-- Executing an instruction with an opcode counts as one step. -/
theorem step_counted {i : Instruction} {op : Opcode} (fetched : m.fetch? = some i)
    (known : i.opcode? = some op) : m.step.machine.steps = m.steps + 1 := by
  rw [step_of_known fetched known]
  exact attempt_machine (P := fun k => k.steps = m.steps + 1) rfl fun xs _ =>
    (execute_sameOutside (m.dispatch i) op xs).steps

/-- No step changes the program. -/
theorem step_program (m : Machine) : m.step.machine.program = m.program := by
  cases fetched : m.fetch? with
  | none => rw [step_of_fetch?_none fetched]; rfl
  | some i => exact (step_fetched fetched).1

/-- No step changes the label index. -/
theorem step_labels (m : Machine) : m.step.machine.labels = m.labels := by
  cases fetched : m.fetch? with
  | none => rw [step_of_fetch?_none fetched]; rfl
  | some i => exact (step_fetched fetched).2.1

/-- No run changes the program that was put in order at its start, nor the label index. -/
theorem after_program (m : Machine) (n : Nat) :
    (m.after n).machine.program = m.program ∧ (m.after n).machine.labels = m.labels := by
  refine after_induction
    (P := fun o => o.machine.program = m.program ∧ o.machine.labels = m.labels)
    ⟨rfl, rfl⟩ (fun k held => ?_) n
  obtain ⟨program, labels⟩ : k.program = m.program ∧ k.labels = m.labels := held
  exact ⟨(step_program k).trans program, (step_labels k).trans labels⟩

end Machine

end FrameCode
