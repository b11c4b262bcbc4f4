import FrameCode.Proofs.CheckedOperands
import FrameCode.Proofs.Footprint
import FrameCode.Proofs.RaisedFaults

/-!
# Defined labels

The scan for undefined labels looks at all operands of the program, whether they are ever reached
or not.  A run resolves a label when it executes one of four opcodes.  Both ask the index of the
program in order, which no step changes, and what a run resolves is an operand of an instruction
of the program; so a program that the scan passes never meets an undefined label.
-/

namespace FrameCode

/-! ## The scan -/

theorem Instruction.mem_labelsUsed_iff {i : Instruction} {name : String} :
    name ∈ i.labelsUsed ↔ i.opcode? ≠ some .label ∧ .label name ∈ i.operands := by
  unfold labelsUsed
  split
  · next definition => simp [definition]
  · next other =>
    rw [List.mem_filterMap]
    constructor
    · rintro ⟨x, mem, eq⟩
      cases x with
      | label used =>
        obtain rfl := Option.some.inj eq
        exact ⟨other, mem⟩
      | _ => cases eq
    · rintro ⟨-, mem⟩
      exact ⟨.label name, mem, rfl⟩

/-- The scan passes a program just if its index has every label that it uses. -/
theorem Program.undefinedLabels_eq_nil_iff {p : Program} :
    p.undefinedLabels = [] ↔
      ∀ i ∈ p.instructions, ∀ name ∈ i.labelsUsed, (Labels.build p).1.resolve? name ≠ none := by
  simp [undefinedLabels, List.flatMap_eq_nil_iff, List.filter_eq_nil_iff, Labels.contains]

/-! ## What an instruction reports -/

/-- The fault names no label but one that the instruction uses and the index does not have. -/
def Fault.Unresolved (index : Labels) (i : Instruction) (e : Fault) : Prop :=
  ∀ name, e.cause = .undefinedLabel name → name ∈ i.labelsUsed ∧ index.resolve? name = none

theorem Fault.unresolved_of_ne {index : Labels} {i : Instruction} {e : Fault}
    (other : ∀ name, e.cause ≠ .undefinedLabel name) : e.Unresolved index i :=
  fun name eq => absurd eq (other name)

namespace Machine

variable {m : Machine} {i : Instruction} {op : Opcode} {order : Nat}

theorem unresolved_target {name : String} (used : name ∈ i.labelsUsed) :
    ∀ e, m.target name = .error e → e.Unresolved m.labels i := by
  intro e failed
  unfold target at failed
  split at failed
  · cases failed
  · next absent =>
    cases failed
    rintro _ ⟨⟩
    exact ⟨used, absent⟩

theorem unresolved_symbol {x : Operand} :
    ∀ e, m.symbol order op x = .error e → e.Unresolved m.labels i := by
  intro e failed
  apply Fault.unresolved_of_ne
  intro name
  cases x with
  | literal => cases failed
  | place p =>
    obtain ⟨cause, -, rfl⟩ := mapError_eq_error_iff.1 failed
    exact nofun
  | label =>
    cases failed
    exact nofun
  | type =>
    cases failed
    exact nofun

theorem unresolved_jumpEquals {a b : Value} :
    ∀ e, Operation.jumpEquals order op a b = .error e → e.Unresolved m.labels i := by
  intro e failed
  apply Fault.unresolved_of_ne
  unfold Operation.jumpEquals at failed
  split at failed <;> cases failed
  exact fun _ => nofun

theorem unresolved_jumpIf {name : String} (used : name ∈ i.labelsUsed) (wanted : Bool)
    (x y : Operand) :
    (m.jumpIf order op wanted name x y).Fails (Fault.Unresolved m.labels i) :=
  attempt_fails (unresolved_target used) fun _ _ => attempt_fails unresolved_symbol fun _ _ =>
    attempt_fails unresolved_symbol fun _ _ =>
      attempt_fails unresolved_jumpEquals fun _ _ => trivial

/-- An instruction reports no label but those among its operands that the index does not have. -/
theorem execute_unresolved (known : i.opcode? = some op) {xs : Operands op}
    (operands : i.operands = xs.toList) :
    (m.execute op xs).Fails (Fault.Unresolved m.labels i) := by
  have used (name : String) (jump : op ≠ .label)
      (mem : .label name ∈ xs.toList) : name ∈ i.labelsUsed := by
    rw [Instruction.mem_labelsUsed_iff, known, operands]
    exact ⟨fun definition => jump (Option.some.inj definition), mem⟩
  by_cases resolves : op ∈ [.call, .jump, .jumpIfEq, .jumpIfNeq]
  · simp only [List.mem_cons, List.not_mem_nil, or_false] at resolves
    rcases resolves with rfl | rfl | rfl | rfl
    · obtain ⟨order, name, ⟨⟩⟩ := xs
      have label := used name (by decide) List.mem_cons_self
      exact attempt_fails (unresolved_target label) fun _ _ => trivial
    · obtain ⟨order, name, ⟨⟩⟩ := xs
      have label := used name (by decide) List.mem_cons_self
      exact attempt_fails (unresolved_target label) fun _ _ => trivial
    · obtain ⟨order, name, x, y, ⟨⟩⟩ := xs
      exact unresolved_jumpIf (used name (by decide) List.mem_cons_self) true x y
    · obtain ⟨order, name, x, y, ⟨⟩⟩ := xs
      exact unresolved_jumpIf (used name (by decide) List.mem_cons_self) false x y
  · refine (execute_raisedBy m op xs).imp fun e raised => Fault.unresolved_of_ne ?_
    intro name label
    have raised := raised.cause
    rw [label] at raised
    exact resolves raised

/-- A step reports no label but those that the next instruction uses and the index
does not have. -/
theorem step_unresolved :
    m.step.Fails fun e => ∃ i, m.fetch? = some i ∧ e.Unresolved m.labels i := by
  cases fetched : m.fetch? with
  | none =>
    rw [step_of_fetch?_none fetched]
    trivial
  | some i =>
    have here (o : Outcome) (unresolved : o.Fails (Fault.Unresolved m.labels i)) :
        o.Fails fun e => ∃ j, some i = some j ∧ e.Unresolved m.labels j :=
      unresolved.imp fun _ held => ⟨i, rfl, held⟩
    apply here
    cases known : i.opcode? with
    | none =>
      rw [step_of_unknown fetched known]
      trivial
    | some op =>
      rw [step_of_known fetched known]
      refine attempt_fails (fun e refused => ?_) fun xs checked => ?_
      · apply Fault.unresolved_of_ne
        rcases Operands.check_eq_error refused with rfl | ⟨n, rfl⟩ <;> exact fun _ => nofun
      · exact execute_unresolved known (Operands.toList_of_check checked)

/-! ## Runs -/

/-- The invariant of a run: the program and its index stay, and no undefined label is met. -/
theorem after_defined (defined : m.program.undefinedLabels = [])
    (indexed : m.labels = (Labels.build m.program).1) (n : Nat) :
    (m.after n).machine.program = m.program ∧ (m.after n).machine.labels = m.labels ∧
      (m.after n).Fails fun e => ∀ name, e.cause ≠ .undefinedLabel name := by
  refine after_induction (P := fun o => o.machine.program = m.program ∧
    o.machine.labels = m.labels ∧ o.Fails fun e => ∀ name, e.cause ≠ .undefinedLabel name)
    ⟨rfl, rfl, trivial⟩ (fun k held => ?_) n
  have program : k.program = m.program := held.1
  have labels : k.labels = m.labels := held.2.1
  refine ⟨(step_program k).trans program, (step_labels k).trans labels, ?_⟩
  refine step_unresolved.imp ?_
  rintro e ⟨i, fetched, unresolved⟩ name eq
  have mem : i ∈ m.program.instructions := program ▸ List.mem_of_getElem? fetched
  obtain ⟨used, absent⟩ := unresolved name eq
  rw [labels, indexed] at absent
  exact Program.undefinedLabels_eq_nil_iff.1 defined i mem name used absent

/-- **No run of a program that passes the scan fails for an undefined label.**  The machine, its
input and its outlets can be any, and the run can have any length and any ending. -/
theorem run_defined {q : Program} (ordered : m.program.ordered = .ok q)
    (defined : q.undefinedLabels = []) {bound : Nat} {result : Except RunError Halt} {k : Machine}
    (ended : m.run bound = some (result, k)) :
    ∀ order name, result ≠ .error (.fault ⟨order, .undefinedLabel name⟩) := by
  obtain ⟨ending, left, reached, finished⟩ := run_eq_some ordered ended
  obtain ⟨-, -, fails⟩ := after_defined (m := m.ready q) defined rfl bound
  intro order name failed
  have failed : (left.finish ending).1 = .error (.fault ⟨order, .undefinedLabel name⟩) := by
    rw [finished, failed]
  rcases finish_eq_error failed with ⟨cause, rfl, eq⟩ | ⟨h, reason, -, -, eq⟩
  · obtain rfl := RunError.fault.inj eq
    exact (Outcome.fails_iff_of_ending? reached).1 fails _ rfl name rfl
  · cases eq

/-- A label that is defined twice, a definition without a name, and a jump that has no opcode. -/
theorem run_defined_twice :
    let p : Program := ⟨[⟨.known .label, [.label "f"], 30⟩, ⟨.known .call, [.label "f"], 10⟩,
      ⟨.known .ret, [], 40⟩, ⟨.known .exit, [.literal (.int 3)], 20⟩,
      ⟨.known .label, [.label "f"], 35⟩, ⟨.known .label, [], 50⟩,
      ⟨.unknown "GOTO", [.label "f", .label "f"], 5⟩]⟩
    let m := new p (.ofText "") .reliable .reliable
    ∃ result k, m.run 6 = some (result, k) ∧ result = .ok (.exit 3) ∧
      ∀ order name, result ≠ .error (.fault ⟨order, .undefinedLabel name⟩) := by
  intro p m
  obtain ⟨q, ordered, defined⟩ : ∃ q, p.ordered = .ok q ∧ q.undefinedLabels = [] :=
    ⟨_, rfl, by decide⟩
  obtain ⟨k, ended⟩ : ∃ k, m.run 6 = some (.ok (.exit 3), k) := ⟨_, rfl⟩
  exact ⟨_, k, ended, rfl, run_defined ordered defined ended⟩

end Machine

end FrameCode
