import FrameCode.Proofs.CheckedOperands
import FrameCode.Proofs.Footprint
import FrameCode.Proofs.LabelIndex

/-!
# Control

`Machine.Transfer` lists where a step can lead: past its instruction, to a label,
into a routine or back from one.  `step_directs` says that a step does nothing else
to the position and to the calls.  A run ends without a failure at `EXIT`, or past
the last instruction: `fetch?_of_finished`.
-/

namespace FrameCode

namespace Machine

variable {m k : Machine} {i : Instruction} {op : Opcode}

/-! ## Where a step leads -/

/-- What a successful step can make of the position and the calls. -/
inductive Transfer (m : Machine) (i : Instruction) : Nat → List Nat → Prop
  | onward : i.opcode? ≠ some .call → i.opcode? ≠ some .ret → i.opcode? ≠ some .jump →
    Transfer m i (m.position + 1) m.calls
  | jump {name : String} {c : Nat} :
    i.opcode? = some .jump ∨ i.opcode? = some .jumpIfEq ∨ i.opcode? = some .jumpIfNeq →
    i.operands.head? = some (.label name) → m.labels.resolve? name = some c →
    Transfer m i c m.calls
  | call {name : String} {c : Nat} :
    i.opcode? = some .call → i.operands.head? = some (.label name) →
    m.labels.resolve? name = some c → Transfer m i c ((m.position + 1) :: m.calls)
  | ret {c : Nat} {calls : List Nat} :
    i.opcode? = some .ret → m.calls = c :: calls → Transfer m i c calls

end Machine

/-- A step of the machine that leads on does so by a transfer, and one that ends the run is past
its instruction, with the same calls. -/
def Outcome.Directs (m : Machine) (i : Instruction) : Outcome → Prop
  | next k => m.Transfer i k.position k.calls
  | halted _ k => k.position = m.position + 1 ∧ k.calls = m.calls
  | failed _ k => k.position = m.position + 1 ∧ k.calls = m.calls

namespace Machine

variable {m k : Machine} {i : Instruction} {op : Opcode}

theorem target_eq_ok_iff {name : String} {c : Nat} :
    m.target name = .ok c ↔ m.labels.resolve? name = some c := by
  unfold target
  cases m.labels.resolve? name <;> simp

/-- An opcode that changes neither the position nor the calls leads past its instruction. -/
theorem directs_of_same (call : i.opcode? ≠ some .call) (ret : i.opcode? ≠ some .ret)
    (jump : i.opcode? ≠ some .jump) {o : Outcome} (position : o.machine.position = m.position + 1)
    (calls : o.machine.calls = m.calls) : o.Directs m i := by
  cases o with
  | next k =>
    show m.Transfer i k.position k.calls
    rw [show k.position = m.position + 1 from position, show k.calls = m.calls from calls]
    exact .onward call ret jump
  | halted h k => exact ⟨position, calls⟩
  | failed e k => exact ⟨position, calls⟩

theorem jumpIf_directs {order : Nat} {name : String} {wanted : Bool} {x y : Operand}
    (known : i.opcode? = some .jumpIfEq ∨ i.opcode? = some .jumpIfNeq)
    (label : i.operands.head? = some (.label name)) :
    ((m.dispatch i).jumpIf order op wanted name x y).Directs m i := by
  refine attempt_outcome (fun _ _ => ⟨rfl, rfl⟩) fun c resolved =>
    attempt_outcome (fun _ _ => ⟨rfl, rfl⟩) fun _ _ =>
      attempt_outcome (fun _ _ => ⟨rfl, rfl⟩) fun _ _ =>
        attempt_outcome (fun _ _ => ⟨rfl, rfl⟩) fun equal _ => ?_
  have resolved : m.labels.resolve? name = some c :=
    target_eq_ok_iff (m := m.dispatch i) |>.1 resolved
  show m.Transfer i (if equal = wanted then _ else m.dispatch i).position
    (if equal = wanted then _ else m.dispatch i).calls
  split
  · exact .jump (.inr known) label resolved
  · rcases known with known | known <;> exact .onward (by simp [known]) (by simp [known])
      (by simp [known])

/-- What an opcode does to the position and the calls, with the operands of its instruction. -/
theorem execute_directs (known : i.opcode? = some op) {xs : Operands op}
    (operands : i.operands = xs.toList) :
    ((m.dispatch i).execute op xs).Directs m i := by
  by_cases transfers : op ∈ [.call, .ret, .jump, .jumpIfEq, .jumpIfNeq]
  · simp only [List.mem_cons, List.not_mem_nil, or_false] at transfers
    rcases transfers with rfl | rfl | rfl | rfl | rfl
    · obtain ⟨order, name, ⟨⟩⟩ := xs
      have label : i.operands.head? = some (.label name) := by rw [operands]; rfl
      exact attempt_outcome (fun _ _ => ⟨rfl, rfl⟩) fun c resolved =>
        .call known label (target_eq_ok_iff (m := m.dispatch i) |>.1 resolved)
    · cases pushed : (m.dispatch i).calls with
      | nil =>
        rw [execute_ret_nil pushed]
        exact ⟨rfl, rfl⟩
      | cons c calls =>
        rw [execute_ret_cons pushed]
        exact .ret known pushed
    · obtain ⟨order, name, ⟨⟩⟩ := xs
      have label : i.operands.head? = some (.label name) := by rw [operands]; rfl
      exact attempt_outcome (fun _ _ => ⟨rfl, rfl⟩) fun c resolved =>
        .jump (.inl known) label (target_eq_ok_iff (m := m.dispatch i) |>.1 resolved)
    · obtain ⟨order, name, x, y, ⟨⟩⟩ := xs
      exact jumpIf_directs (.inl known) (by rw [operands]; rfl)
    · obtain ⟨order, name, x, y, ⟨⟩⟩ := xs
      exact jumpIf_directs (.inr known) (by rw [operands]; rfl)
  · -- The footprint of any other opcode has neither the position nor the calls.
    have same := execute_sameOutside (m.dispatch i) op xs
    have kept : .position ∉ op.changes ∧ .calls ∉ op.changes := by
      revert transfers
      clear same operands
      cases op <;> decide
    have other {op' : Opcode} (listed : op' ∈ [.call, .ret, .jump, .jumpIfEq, .jumpIfNeq]) :
        i.opcode? ≠ some op' := by
      rw [known]
      rintro ⟨⟩
      exact transfers listed
    exact directs_of_same (other (by decide)) (other (by decide)) (other (by decide))
      (same.position kept.1) (same.calls kept.2)

/-- What a step does to the position and the calls. -/
theorem step_directs (fetched : m.fetch? = some i) : m.step.Directs m i := by
  cases known : i.opcode? with
  | none =>
    rw [step_of_unknown fetched known]
    exact .onward (by simp [known]) (by simp [known]) (by simp [known])
  | some op =>
    rw [step_of_known fetched known]
    exact attempt_outcome (fun _ _ => ⟨rfl, rfl⟩) fun xs checked =>
      execute_directs known (Operands.toList_of_check checked)

/-! ## The end of the program -/

end Machine

/-- The run goes on or fails. -/
def Outcome.Unhalted : Outcome → Prop
  | next _ => True
  | halted _ _ => False
  | failed _ _ => True

namespace Machine

variable {m k : Machine} {op : Opcode} {order : Nat}

theorem attempt_unhalted {α : Type} {result : Except Fault α} {go : α → Outcome}
    (further : ∀ a, (go a).Unhalted) : (m.attempt result go).Unhalted :=
  attempt_outcome (fun _ _ => trivial) fun a _ => further a

theorem update_unhalted (done : Except MemoryError Unit × Memory) : (m.update done).Unhalted :=
  update_outcome (fun _ _ _ => trivial) fun _ _ => trivial

theorem store_unhalted (p : Place) (v : Value) : (m.store p v).Unhalted :=
  update_unhalted _

theorem unary_unhalted (f : Value → Except Fault Value) (p : Place) (x : Operand) :
    (m.unary order op f p x).Unhalted :=
  attempt_unhalted fun _ => attempt_unhalted fun v => store_unhalted p v

theorem binary_unhalted (f : Value → Value → Except Fault Value) (p : Place) (x y : Operand) :
    (m.binary order op f p x y).Unhalted :=
  attempt_unhalted fun _ => attempt_unhalted fun _ => attempt_unhalted fun v => store_unhalted p v

theorem jumpIf_unhalted (wanted : Bool) (label : String) (x y : Operand) :
    (m.jumpIf order op wanted label x y).Unhalted :=
  attempt_unhalted fun _ => attempt_unhalted fun _ => attempt_unhalted fun _ =>
    attempt_unhalted fun _ => trivial

/-- No opcode but `EXIT` ends a run without a failure. -/
theorem execute_unhalted (other : op ≠ .exit) (xs : Operands op) :
    (m.execute op xs).Unhalted := by
  cases op with
  | exit => exact absurd rfl other
  | createFrame | label | «break» => trivial
  | pushFrame | popFrame | defvar => exact update_unhalted _
  | call | jump | pushs => exact attempt_unhalted fun _ => trivial
  | move | type =>
    obtain ⟨order, p, x, ⟨⟩⟩ := xs
    exact attempt_unhalted fun v => store_unhalted p _
  | ret =>
    cases pushed : m.calls with
    | nil => rw [execute_ret_nil pushed]; trivial
    | cons position calls => rw [execute_ret_cons pushed]; trivial
  | pops =>
    obtain ⟨order, p, ⟨⟩⟩ := xs
    cases pushed : m.stack with
    | nil => rw [execute_pops_nil pushed]; trivial
    | cons v stack => rw [execute_pops_cons pushed]; exact store_unhalted p v
  | read =>
    obtain ⟨order, p, name, ⟨⟩⟩ := xs
    show (m.read p name).Unhalted
    rw [read_eq]
    split
    · exact store_unhalted p _
    · trivial
  | write | dprint =>
    refine attempt_unhalted fun v => ?_
    split <;> trivial
  | setchar =>
    exact attempt_unhalted fun _ => attempt_unhalted fun _ => attempt_unhalted fun _ =>
      attempt_unhalted fun v => store_unhalted _ v
  | jumpIfEq | jumpIfNeq => exact jumpIf_unhalted _ _ _ _
  | not | int2char | strlen => exact unary_unhalted _ _ _
  | add | sub | mul | idiv | lt | gt | eq | and | or | stri2int | concat | getchar =>
    exact binary_unhalted _ _ _ _

/-- A step finds the program finished only past its last instruction. -/
theorem fetch?_of_finished (finished : m.step = .halted .finished k) :
    m.fetch? = none ∧ k = m := by
  cases fetched : m.fetch? with
  | none =>
    rw [step_of_fetch?_none fetched] at finished
    cases finished
    exact ⟨rfl, rfl⟩
  | some i =>
    have unfinished : m.step ≠ .halted .finished k := by
      cases known : i.opcode? with
      | none =>
        rw [step_of_unknown fetched known]
        exact nofun
      | some op =>
        rw [step_of_known fetched known]
        refine attempt_outcome (P := (· ≠ .halted .finished k)) (fun _ _ => nofun) fun xs _ => ?_
        by_cases exits : op = .exit
        · subst exits
          exact attempt_outcome (P := (· ≠ .halted .finished k)) (fun _ _ => nofun) fun _ _ =>
            attempt_outcome (P := (· ≠ .halted .finished k)) (fun _ _ => nofun) fun _ _ => nofun
        · intro halted
          have going := execute_unhalted (m := m.dispatch i) exits xs
          rw [halted] at going
          exact going
    exact absurd finished unfinished

end Machine

end FrameCode
