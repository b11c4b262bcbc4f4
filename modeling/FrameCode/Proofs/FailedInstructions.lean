import FrameCode.Proofs.CheckedOperands
import FrameCode.Proofs.Footprint

/-!
# Failed instructions

An instruction that fails has changed nothing that the program can see, with two exceptions.  The
value that `POPS` could not store is gone from the stack, and the line that `READ` could not store
is gone from the input.  `step_failed` says so for all opcodes and operands, in any state.

Most opcodes change the state in their last action only, so they fail in the very state that they
were executed in.  A refused write leaves its trace in the outlet, and the two exceptions take
something before they store it.
-/

namespace FrameCode

namespace Machine

variable {m k : Machine} {i : Instruction} {op : Opcode} {order : Nat}

/-! ## Intact states -/

/-- The parts of the state that a failed instruction should leave alone are as they were. -/
structure Intact (m k : Machine) : Prop where
  memory : k.memory = m.memory
  labels : k.labels = m.labels
  calls : k.calls = m.calls
  stack : k.stack = m.stack
  input : k.input = m.input

theorem Intact.refl (m : Machine) : Intact m m := ⟨rfl, rfl, rfl, rfl, rfl⟩

theorem store_intact (p : Place) (v : Value) : (m.store p v).FailsAt m.Intact :=
  store_failsAt fun _ _ => .refl m

theorem unary_intact (f : Value → Except Fault Value) (p : Place) (x : Operand) :
    (m.unary order op f p x).FailsAt m.Intact :=
  attempt_failsAt (fun _ _ => .refl m) fun _ _ => attempt_failsAt (fun _ _ => .refl m) fun v _ =>
    store_intact p v

theorem binary_intact (f : Value → Value → Except Fault Value) (p : Place) (x y : Operand) :
    (m.binary order op f p x y).FailsAt m.Intact :=
  attempt_failsAt (fun _ _ => .refl m) fun _ _ => attempt_failsAt (fun _ _ => .refl m) fun _ _ =>
    attempt_failsAt (fun _ _ => .refl m) fun v _ => store_intact p v

theorem setChar_intact (p : Place) (x y : Operand) : (m.setChar order p x y).FailsAt m.Intact :=
  access_failsAt (fun _ _ => .refl m) fun _ _ => attempt_failsAt (fun _ _ => .refl m) fun _ _ =>
    attempt_failsAt (fun _ _ => .refl m) fun _ _ =>
      attempt_failsAt (fun _ _ => .refl m) fun v _ => store_intact p v

theorem jumpIf_intact (wanted : Bool) (label : String) (x y : Operand) :
    (m.jumpIf order op wanted label x y).FailsAt m.Intact :=
  attempt_failsAt (fun _ _ => .refl m) fun _ _ => attempt_failsAt (fun _ _ => .refl m) fun _ _ =>
    attempt_failsAt (fun _ _ => .refl m) fun _ _ =>
      attempt_failsAt (fun _ _ => .refl m) fun _ _ => trivial

theorem write_intact (x : Operand) : (m.write order x).FailsAt m.Intact := by
  refine attempt_failsAt (fun _ _ => .refl m) fun v _ => ?_
  split
  · trivial
  · exact ⟨rfl, rfl, rfl, rfl, rfl⟩

theorem dprint_intact (x : Operand) : (m.dprint order x).FailsAt m.Intact := by
  refine attempt_failsAt (fun _ _ => .refl m) fun v _ => ?_
  split
  · trivial
  · exact ⟨rfl, rfl, rfl, rfl, rfl⟩

/-- Unless it takes a value or a line, an instruction that fails leaves the state intact. -/
theorem execute_intact (pops : op ≠ .pops) (read : op ≠ .read) (xs : Operands op) :
    (m.execute op xs).FailsAt m.Intact := by
  cases op with
  | move =>
    obtain ⟨order, p, x, ⟨⟩⟩ := xs
    exact attempt_failsAt (fun _ _ => .refl m) fun v _ => store_intact p v
  | type =>
    obtain ⟨order, p, x, ⟨⟩⟩ := xs
    exact attempt_failsAt (fun _ _ => .refl m) fun v _ => store_intact p _
  | createFrame | label | «break» => trivial
  | pushFrame => exact update_failsAt Memory.pushFrame_of_error fun _ _ => .refl m
  | popFrame => exact update_failsAt Memory.popFrame_of_error fun _ _ => .refl m
  | defvar => exact update_failsAt Memory.define_of_error fun _ _ => .refl m
  | call | jump | pushs => exact attempt_failsAt (fun _ _ => .refl m) fun _ _ => trivial
  | ret =>
    cases pushed : m.calls with
    | nil =>
      rw [execute_ret_nil pushed]
      exact .refl m
    | cons position calls =>
      rw [execute_ret_cons pushed]
      trivial
  | pops => exact absurd rfl pops
  | read => exact absurd rfl read
  | write => exact write_intact _
  | dprint => exact dprint_intact _
  | setchar => exact setChar_intact _ _ _
  | jumpIfEq | jumpIfNeq => exact jumpIf_intact _ _ _ _
  | exit =>
    exact attempt_failsAt (fun _ _ => .refl m) fun _ _ =>
      attempt_failsAt (fun _ _ => .refl m) fun _ _ => trivial
  | not | int2char | strlen => exact unary_intact _ _ _
  | add | sub | mul | idiv | lt | gt | eq | and | or | stri2int | concat | getchar =>
    exact binary_intact _ _ _ _

/-! ## What a failure takes away -/

/-- The instruction pops a value that cannot be stored. -/
def LosesTop (m : Machine) (i : Instruction) : Prop :=
  ∃ p v rest e, i.opcode? = some .pops ∧ i.operands = [.place p] ∧ m.stack = v :: rest ∧
    m.memory.write p v = (.error e, m.memory)

/-- The instruction reads a line of a readable type and its value cannot be stored. -/
def LosesLine (m : Machine) (i : Instruction) : Prop :=
  ∃ p name v e, i.opcode? = some .read ∧ i.operands = [.place p, .type name] ∧
    (ValueType.ofName? name).bind m.input.next.1.value? = some v ∧
    m.memory.write p v = (.error e, m.memory)

/-- The state that a failed instruction leaves: as it was, apart from the top of the stack or one
line of the input if that is what the instruction loses. -/
structure LeftByFailure (m : Machine) (i : Instruction) (k : Machine) : Prop where
  memory : k.memory = m.memory
  labels : k.labels = m.labels
  calls : k.calls = m.calls
  stack_tail : m.LosesTop i → k.stack = m.stack.tail
  stack_same : ¬ m.LosesTop i → k.stack = m.stack
  input_next : m.LosesLine i → k.input = m.input.next.2
  input_same : ¬ m.LosesLine i → k.input = m.input

theorem Intact.leftByFailure (intact : m.Intact k) (top : ¬ m.LosesTop i)
    (line : ¬ m.LosesLine i) :
    LeftByFailure m i k where
  memory := intact.memory
  labels := intact.labels
  calls := intact.calls
  stack_tail := fun loses => absurd loses top
  stack_same := fun _ => intact.stack
  input_next := fun loses => absurd loses line
  input_same := fun _ => intact.input

theorem not_losesTop_of_ne (known : i.opcode? = some op) (other : op ≠ .pops) :
    ¬ m.LosesTop i := by
  rintro ⟨p, v, rest, e, pops, -⟩
  exact other (Option.some.inj (known.symm.trans pops))

theorem not_losesLine_of_ne (known : i.opcode? = some op) (other : op ≠ .read) :
    ¬ m.LosesLine i := by
  rintro ⟨p, name, v, e, read, -⟩
  exact other (Option.some.inj (known.symm.trans read))

/-- Operands that do not pass their check are no reason to take a value or a line. -/
theorem loses_nothing_of_check {e : Fault} (known : i.opcode? = some op)
    (refused : Operands.check op i = .error e) : ¬ m.LosesTop i ∧ ¬ m.LosesLine i := by
  constructor
  · rintro ⟨p, v, rest, cause, pops, operands, -⟩
    obtain rfl := Option.some.inj (known.symm.trans pops)
    have passed : Operands.check .pops i = .ok ⟨i.order, p, ()⟩ :=
      Operands.check_of_toList operands
    rw [passed] at refused
    cases refused
  · rintro ⟨p, name, v, cause, read, operands, -⟩
    obtain rfl := Option.some.inj (known.symm.trans read)
    have passed : Operands.check .read i = .ok ⟨i.order, p, name, ()⟩ :=
      Operands.check_of_toList operands
    rw [passed] at refused
    cases refused

/-! ## Failed instructions -/

theorem pops_leftByFailure {p : Place} (known : i.opcode? = some .pops)
    (operands : i.operands = [.place p]) :
    (m.execute .pops ⟨order, p, ()⟩).FailsAt (LeftByFailure m i) := by
  have line : ¬ m.LosesLine i := not_losesLine_of_ne known (by decide)
  cases pushed : m.stack with
  | nil =>
    rw [execute_pops_nil pushed]
    refine (Intact.refl m).leftByFailure ?_ line
    rintro ⟨_, v, rest, _, -, -, some, -⟩
    rw [pushed] at some
    cases some
  | cons v rest =>
    rw [execute_pops_cons pushed]
    refine store_failsAt fun e refused => ?_
    have loses : m.LosesTop i := ⟨p, v, rest, e, known, operands, pushed, refused⟩
    exact {
      memory := rfl
      labels := rfl
      calls := rfl
      stack_tail := fun _ => by rw [pushed]; rfl
      stack_same := fun keeps => absurd loses keeps
      input_next := fun loses => absurd loses line
      input_same := fun _ => rfl }

theorem read_leftByFailure {p : Place} {name : String} (known : i.opcode? = some .read)
    (operands : i.operands = [.place p, .type name]) :
    (m.read p name).FailsAt (LeftByFailure m i) := by
  have top : ¬ m.LosesTop i := not_losesTop_of_ne known (by decide)
  rw [read_eq]
  cases value : (ValueType.ofName? name).bind m.input.next.1.value? with
  | none =>
    refine (Intact.refl m).leftByFailure top ?_
    rintro ⟨_, _, v, _, -, others, some, -⟩
    obtain ⟨⟨⟩, ⟨⟩, -⟩ : Operand.place p = .place _ ∧ Operand.type name = .type _ ∧ True := by
      simpa [operands] using others
    rw [value] at some
    cases some
  | some v =>
    have same : SameOutside [.input, .journal] m m.readLine.2 :=
      readLine_sameOutside (by decide) (by decide)
    have memory : m.readLine.2.memory = m.memory := same.memory (by decide)
    refine store_failsAt fun e refused => ?_
    rw [memory] at refused
    have loses : m.LosesLine i := ⟨p, name, v, e, known, operands, value, refused⟩
    exact {
      memory := memory
      labels := same.labels
      calls := same.calls (by decide)
      stack_tail := fun loses => absurd loses top
      stack_same := fun _ => same.stack (by decide)
      input_next := fun _ => readLine_input m
      input_same := fun keeps => absurd loses keeps }

theorem execute_leftByFailure (known : i.opcode? = some op) {xs : Operands op}
    (operands : i.operands = xs.toList) :
    (m.execute op xs).FailsAt (LeftByFailure m i) := by
  by_cases pops : op = .pops
  · subst pops
    obtain ⟨order, p, ⟨⟩⟩ := xs
    exact pops_leftByFailure known operands
  by_cases read : op = .read
  · subst read
    obtain ⟨order, p, name, ⟨⟩⟩ := xs
    exact read_leftByFailure known operands
  exact (execute_intact pops read xs).imp fun _ intact =>
    intact.leftByFailure (not_losesTop_of_ne known pops) (not_losesLine_of_ne known read)

/-- **A failed instruction leaves the state as it was.**  The memory with all its frames, the
labels and the calls are the same, whatever the opcode, the operands and the state were.  Of the
data stack only the value is gone that `POPS` could not store, of the input only the line that
`READ` could not store. -/
theorem step_failed {e : Fault} (fetched : m.fetch? = some i) (failed : m.step = .failed e k) :
    LeftByFailure m i k := by
  have left : m.step.FailsAt (LeftByFailure m i) := by
    cases known : i.opcode? with
    | none =>
      rw [step_of_unknown fetched known]
      trivial
    | some op =>
      rw [step_of_known fetched known]
      -- Taking the instruction changes its position, its number and the journal only.
      have dispatched (k : Machine) (left : LeftByFailure (m.dispatch i) i k) :
          LeftByFailure m i k :=
        ⟨left.memory, left.labels, left.calls, left.stack_tail, left.stack_same, left.input_next,
          left.input_same⟩
      refine attempt_failsAt (fun e refused => ?_) fun xs checked => ?_
      · obtain ⟨top, line⟩ := loses_nothing_of_check known refused
        exact dispatched _ ((Intact.refl _).leftByFailure top line)
      · have operands := Operands.toList_of_check checked
        exact (execute_leftByFailure known operands).imp dispatched
  rw [failed] at left
  exact left

/-- A value that is popped and a line that is read for a variable which is not there. -/
theorem step_failed_store :
    let x : Place := ⟨.temporary, "x"⟩
    let pops : Instruction := ⟨.known .pops, [.place x], 1⟩
    let read : Instruction := ⟨.known .read, [.place x, .type "int"], 2⟩
    let start := new ⟨[pops, read]⟩ (.ofText "7\n8\n") .reliable .reliable
    let m := { start with
      stack := [.int 1, .int 2], memory := Memory.empty.createFrame, calls := [5] }
    let n := { m with position := 1 }
    (∃ e k, m.step = .failed e k ∧ LeftByFailure m pops k ∧ k.stack = [.int 2]) ∧
      ∃ e k, n.step = .failed e k ∧ LeftByFailure n read k ∧ k.input = .ofText "8\n" := by
  intro x pops read start m n
  exact ⟨⟨_, _, rfl, step_failed rfl rfl, rfl⟩, ⟨_, _, rfl, step_failed rfl rfl, by decide⟩⟩

end Machine

end FrameCode
