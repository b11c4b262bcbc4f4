import FrameCode.Proofs.CheckedOperands
import FrameCode.Proofs.Footprint
import FrameCode.Proofs.Ordering
import FrameCode.Proofs.RaisedFaults

/-!
# Blame

A run that fails names an instruction by its order number.  `run_error_names_last` says that it is
the instruction that was fetched last, whatever raised the fault: the check of its operands, the
memory, an operation, the label index, a stack, an outlet or the flush at the end.

The number of a fault has three sources.  A check of operands takes that of its instruction, an
operation on values that of the checked operands, and whatever else can fail that which the
machine holds.  `step_fails_order` says that they agree.

`Machine.fetched` lists the instructions that a run takes from its program, those without an
opcode included.  The invariant of a run is that the machine holds the order number of the first
of this list, and that a fault which has ended the run has the number that the machine holds.
-/

namespace FrameCode

/-- The instruction that the next step takes from the program. -/
def Outcome.fetch? : Outcome → Option Instruction
  | next m => m.fetch?
  | halted _ _ => none
  | failed _ _ => none

namespace Machine

variable {m k : Machine} {bound : Nat}

/-- The instructions that a machine takes from its program in a number of steps, the latest
first. -/
def fetched (m : Machine) : Nat → List Instruction
  | 0 => []
  | n + 1 => (m.after n).fetch?.toList ++ m.fetched n

/-- The instructions that a run takes from its program, the latest first.  There are none if the
program has no order. -/
def fetchedInRun (m : Machine) (bound : Nat) : List Instruction :=
  match m.start with
  | .error _ => []
  | .ok s => s.fetched bound

/-! ## The number that the machine holds -/

/-- The machine holds the order number of the instruction fetched last. -/
theorem order_after (m : Machine) (n : Nat) :
    (m.after n).machine.order = (m.fetched n).head?.elim m.order Instruction.order := by
  induction n with
  | zero => rfl
  | succ n ih =>
    unfold after fetched
    cases reached : m.after n with
    | next k =>
      rw [reached] at ih
      show k.step.machine.order =
        (k.fetch?.toList ++ m.fetched n).head?.elim m.order Instruction.order
      cases fetched : k.fetch? with
      | none =>
        rw [step_of_fetch?_none fetched]
        exact ih
      | some i => exact (step_fetched fetched).2.2
    | halted h k | failed e k =>
      rw [reached] at ih
      exact ih

/-- A run that has fetched nothing after its first step found nothing to fetch. -/
theorem fetch?_of_fetched_eq_nil {n : Nat} (idle : m.fetched (n + 1) = []) : m.fetch? = none := by
  induction n with
  | zero =>
    have first : m.fetch?.toList ++ [] = [] := idle
    rwa [List.append_nil, Option.toList_eq_nil_iff] at first
  | succ n ih => exact ih (List.append_eq_nil_iff.1 idle).2

/-- A run that has nothing to fetch is finished after its first step. -/
theorem after_of_fetch?_none (past : m.fetch? = none) (n : Nat) :
    m.after (n + 1) = .halted .finished m := by
  induction n with
  | zero => exact step_of_fetch?_none past
  | succ n ih => exact congrArg Outcome.resume ih

/-- Only the run of an empty program has nothing to fetch. -/
theorem instructions_eq_nil_of_ready {q : Program} (ordered : m.program.ordered = .ok q)
    (past : (m.ready q).fetch? = none) : m.program.instructions = [] := by
  have beyond : q.instructions.length ≤ 0 := List.getElem?_eq_none_iff.1 past
  refine List.eq_nil_iff_forall_not_mem.2 fun i mem => ?_
  have sorted : i ∈ q.instructions := (Program.mem_of_ordered ordered).2 mem
  have positive : 0 < q.instructions.length := List.length_pos_of_mem sorted
  omega

/-! ## The number of a fault -/

/-- The sources of the number of a fault agree if the operands have the number that
the machine holds. -/
theorem numbered_self (cause : Cause) (n : Nat) : cause.numbered n n = n := by
  cases cause <;> rfl

/-- A fault has the order number of its instruction, whatever raised it. -/
theorem step_fails_order {i : Instruction} (fetched : m.fetch? = some i) :
    m.step.Fails (·.order = i.order) := by
  cases known : i.opcode? with
  | none =>
    rw [step_of_unknown fetched known]
    trivial
  | some op =>
    rw [step_of_known fetched known]
    refine attempt_fails (fun e refused => ?_) fun xs checked => ?_
    · rcases Operands.check_eq_error refused with rfl | ⟨n, rfl⟩ <;> rfl
    · refine (execute_raisedBy (m.dispatch i) op xs).imp fun e raised => ?_
      have sources : e.order = e.cause.numbered i.order i.order := by
        rw [raised.order, Operands.order_of_check checked]
        rfl
      exact sources.trans (numbered_self e.cause i.order)

/-- A run that has failed did so with the number that the machine holds. -/
theorem after_fails_order (m : Machine) (n : Nat) :
    (m.after n).Fails (·.order = (m.after n).machine.order) := by
  refine after_induction (P := fun o => o.Fails (·.order = o.machine.order)) trivial
    (fun k _ => ?_) n
  cases fetched : k.fetch? with
  | none =>
    rw [step_of_fetch?_none fetched]
    trivial
  | some i =>
    rw [(step_fetched fetched).2.2]
    exact step_fails_order fetched

/-! ## The end of a run -/

/-- The machine that is about to run has the outlets it was given, and no number yet. -/
theorem flush_ready (m : Machine) (q : Program) : (m.ready q).flush.1 = m.reset.flush.1 := by
  have out : (m.ready q).out = m.reset.out := rfl
  have diagnostics : (m.ready q).diagnostics = m.reset.diagnostics := rfl
  unfold flush
  rw [out, diagnostics]
  generalize m.reset.out.flush = answer
  generalize m.reset.diagnostics.flush = answer'
  obtain ⟨_ | _, _⟩ := answer
  · obtain ⟨_ | _, _⟩ := answer' <;> rfl
  · rfl

theorem fetchedInRun_of_ordered {q : Program} (ordered : m.program.ordered = .ok q)
    (bound : Nat) :
    m.fetchedInRun bound = (m.ready q).fetched bound := by
  rw [fetchedInRun, start_of_ordered ordered]

/-- The error of a run that was begun has the number that the machine held at its end. -/
theorem order?_of_finish {n : Nat} {ending : Except Fault Halt} {e : RunError}
    (reached : (m.after n).ending? = some (ending, k)) (failed : (k.finish ending).1 = .error e) :
    e.order? = some k.order := by
  rcases finish_eq_error failed with ⟨cause, rfl, rfl⟩ | ⟨h, reason, -, -, rfl⟩
  · have held := (Outcome.fails_iff_of_ending? reached).1 (after_fails_order m n) cause rfl
    rw [Outcome.machine_of_ending? reached] at held
    exact congrArg some held
  · rfl

/-- **A failed run names the instruction that it fetched last.**  A run fails because the
program has no order, and then it has fetched nothing, read nothing and written nothing, or its
error has the order number of the last instruction that was fetched, with or without an opcode.
Only the flush after the run of an empty program has no instruction to name, and its failure has
the number 0. -/
theorem run_error_names_last {e : RunError} (failed : m.run bound = some (.error e, k)) :
    (∃ cause, m.program.ordered = .error cause ∧ e = .unordered cause ∧
      m.fetchedInRun bound = [] ∧
        k.input = m.input ∧ k.out = m.out ∧ k.diagnostics = m.diagnostics) ∨
      (∃ i earlier, m.fetchedInRun bound = i :: earlier ∧ e.order? = some i.order) ∨
      (m.program.instructions = [] ∧
        ∃ reason, m.reset.flush.1 = .error ⟨0, .output reason⟩ ∧
          e = .fault ⟨0, .output reason⟩) := by
  cases ordered : m.program.ordered with
  | error cause =>
    rw [run_of_refused ordered] at failed
    cases failed
    have unfetched : m.fetchedInRun bound = [] := by
      rw [fetchedInRun, start_of_refused ordered]
    exact .inl ⟨cause, rfl, rfl, unfetched, rfl, rfl, rfl⟩
  | ok q =>
    obtain ⟨ending, left, reached, finished⟩ := run_eq_some ordered failed
    have raised : (left.finish ending).1 = .error e := congrArg Prod.fst finished
    have order := order?_of_finish reached raised
    have held := order_after (m.ready q) bound
    rw [Outcome.machine_of_ending? reached] at held
    rw [fetchedInRun_of_ordered ordered]
    cases taken : (m.ready q).fetched bound with
    | cons i earlier =>
      rw [taken] at held
      exact .inr (.inl ⟨i, earlier, rfl, order.trans (congrArg some held)⟩)
    | nil =>
      cases bound with
      | zero => cases reached
      | succ n =>
        -- Nothing was fetched, so the run was over before it began and only the flush can
        -- have failed.
        have past : (m.ready q).fetch? = none := fetch?_of_fetched_eq_nil taken
        rw [after_of_fetch?_none past] at reached
        cases reached
        rcases finish_eq_error raised with ⟨cause, ended, -⟩ | ⟨h, reason, -, refused, rfl⟩
        · cases ended
        · refine .inr (.inr ⟨instructions_eq_nil_of_ready ordered past, reason, ?_, rfl⟩)
          rw [flush_ready] at refused
          exact refused

/-- A program that is listed out of order calls a routine, jumps and passes over an instruction
without an opcode.  The flush after its run is refused, and the error names the instruction that
was passed over. -/
theorem run_error_names_last_skipped :
    let skipped : Instruction := ⟨.unknown "NOOP", [], 70⟩
    let p : Program := ⟨[⟨.known .label, [.label "f"], 40⟩, ⟨.known .ret, [], 50⟩,
      ⟨.known .label, [.label "end"], 60⟩, skipped, ⟨.known .call, [.label "f"], 5⟩,
      ⟨.known .jump, [.label "end"], 6⟩]⟩
    let out : Outlet := ⟨fun _ => none, fun _ _ => some "closed", 0, 0, []⟩
    let m := new p (.ofText "") out .reliable
    ∃ e k, m.run 6 = some (.error e, k) ∧ e = .fault ⟨70, .output "closed"⟩ ∧
      (m.fetchedInRun 6).map Instruction.order = [70, 6, 50, 5] ∧
      ((∃ cause, p.ordered = .error cause ∧ e = .unordered cause ∧ m.fetchedInRun 6 = [] ∧
          k.input = m.input ∧ k.out = m.out ∧ k.diagnostics = m.diagnostics) ∨
        (∃ i earlier, m.fetchedInRun 6 = i :: earlier ∧ e.order? = some i.order) ∨
        (p.instructions = [] ∧ ∃ reason, m.reset.flush.1 = .error ⟨0, .output reason⟩ ∧
          e = .fault ⟨0, .output reason⟩)) := by
  intro skipped p out m
  obtain ⟨k, failed⟩ : ∃ k, m.run 6 = some (.error (.fault ⟨70, .output "closed"⟩), k) := ⟨_, rfl⟩
  exact ⟨_, k, failed, rfl, by decide, run_error_names_last failed⟩

end Machine

end FrameCode
