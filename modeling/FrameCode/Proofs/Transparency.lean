import FrameCode.Proofs.Correspondence
import FrameCode.Proofs.IdleInstructions
import FrameCode.Proofs.Outlets

/-!
# Transparent instructions

Idle instructions are transparent.  A run of the program without them has the same halt or the
same fault, it writes the same text and the same `DPRINT` texts, and it leaves the same memory and
the same data stack.

The machine of the whole program and that of the program without its idle instructions
correspond, with the positions of the first under `Program.workBefore`.  At an idle instruction
the first machine takes a step for itself, and elsewhere both take a step.  The first machine
passes only finitely many idle instructions in a row, since each of its steps for itself leads to
the next position.
-/

namespace FrameCode

/-- Neither outlet refuses anything. -/
def Outlet.BothUnfailing (o o' : Outlet) : Prop := o.Unfailing ∧ o'.Unfailing

namespace Outlet

theorem Unfailing.of_write {o : Outlet} (unfailing : o.Unfailing) (s : String) :
    (o.write s).2.Unfailing :=
  unfailing.of_sameRules (o.sameRules_write s)

theorem Unfailing.write_fst {o : Outlet} (unfailing : o.Unfailing) (s : String) :
    (o.write s).1 = none := by
  rw [Outlet.write, unfailing.write]

theorem coupled_bothUnfailing : Coupled BothUnfailing := by
  rintro o o' s ⟨unfailing, unfailing'⟩
  exact ⟨(unfailing'.write_fst s).trans (unfailing.write_fst s).symm, unfailing.of_write s,
    unfailing'.of_write s⟩

end Outlet

namespace Machine

/-! ## The relation of the runs -/

/-- The second machine runs the program of the first without its idle instructions, and they agree
in all that a program can see.  Their diagnostics take everything. -/
structure Streamlined (m k : Machine) : Prop where
  program : k.program = m.program.withoutIdle
  corresponds : m.Corresponds m.program.workBefore Outlet.BothUnfailing k

/-- The next instruction is not idle, if there is one. -/
def AtWork (m : Machine) : Prop := ∀ i, m.fetch? = some i → i.isIdle = false

/-- The notes of the `DPRINT` instructions in a number of steps, the latest first. -/
def prints (m : Machine) (n : Nat) : List Note := (m.notes n).filter (·.opcode = .dprint)

end Machine

/-- The outcomes are the same, and the machines go on alike. -/
abbrev Outcome.Streamlined : Outcome → Outcome → Prop :=
  Outcome.Rel id Machine.Streamlined

namespace Machine

variable {m k : Machine} {i : Instruction}

theorem atWork_or_idle (m : Machine) :
    m.AtWork ∨ ∃ i, m.fetch? = some i ∧ i.isIdle = true := by
  by_cases working : m.AtWork
  · exact .inl working
  · simp only [AtWork, not_forall, Bool.not_eq_false] at working
    obtain ⟨i, here, idle⟩ := working
    exact .inr ⟨i, here, idle⟩

theorem prints_succ_of_next {n : Nat} (reached : m.after n = .next k) :
    m.prints (n + 1) = k.noted.filter (·.opcode = .dprint) ++ m.prints n := by
  rw [prints, notes_succ_of_next reached, List.filter_append]
  rfl

/-! ## One step -/

theorem writeDump_of_unfailing (unfailing : m.diagnostics.Unfailing) :
    m.writeDump = { m with diagnostics := (m.diagnostics.write m.dump).2 } := by
  have taken := unfailing.write_fst m.dump
  unfold writeDump
  generalize m.diagnostics.write m.dump = answer at taken ⊢
  obtain ⟨refusal, o⟩ := answer
  obtain rfl : refusal = none := taken
  rfl

/-- An idle instruction leads to the next position and prints nothing. -/
theorem Streamlined.step_idle (both : m.Streamlined k) (here : m.fetch? = some i)
    (idle : i.isIdle = true) :
    ∃ j, m.step = .next j ∧ j.Streamlined k ∧ j.program = m.program ∧
      j.position = m.position + 1 ∧ m.noted.filter (·.opcode = .dprint) = [] := by
  have unmoved : k.position = m.program.workBefore (m.position + 1) := by
    rw [Program.workBefore_succ here, idle]
    exact both.corresponds.position
  rcases Instruction.isIdle_iff.1 idle with unknown | ⟨dumps, empty⟩
  · rw [step_of_unknown here unknown, noted, here, Option.bind_some, unknown]
    exact ⟨_, rfl, ⟨both.program, { both.corresponds with position := unmoved }⟩, rfl, rfl, rfl⟩
  · have checked : Operands.check .break i = .ok ⟨i.order, ()⟩ := Operands.check_of_toList empty
    have unfailing : (m.dispatch i).diagnostics.Unfailing := both.corresponds.diagnostics.1
    have silent : m.noted.filter (·.opcode = .dprint) = [] := by
      refine List.filter_eq_nil_iff.2 fun a mem => ?_
      rw [(passed_of_mem_noted here dumps mem).1]
      decide
    have stepped : m.step = .next (m.dispatch i).writeDump := by
      rw [step_of_known here dumps, checked]
      rfl
    rw [stepped, writeDump_of_unfailing unfailing]
    refine ⟨_, rfl, ⟨both.program, ?_⟩, rfl, rfl, silent⟩
    exact { both.corresponds with
      position := unmoved
      diagnostics := ⟨unfailing.of_write _, both.corresponds.diagnostics.2⟩ }

/-- Elsewhere both machines take the same step. -/
theorem Streamlined.step (both : m.Streamlined k) (working : m.AtWork) :
    Outcome.Streamlined m.step k.step ∧ k.noted = m.noted := by
  have fetched : k.fetch? =
      m.program.withoutIdle.instructions[m.program.workBefore m.position]? := by
    rw [Machine.fetch?, both.program, both.corresponds.position]
  cases here : m.fetch? with
  | none =>
    have there : k.fetch? = none := fetched.trans (Program.getElem?_withoutIdle_of_past here)
    rw [step_of_fetch?_none here, step_of_fetch?_none there, noted, noted, here, there]
    exact ⟨.halted _ both, rfl⟩
  | some i =>
    have busy : i.isIdle = false := working i here
    have there : k.fetch? = some i := fetched.trans (Program.getElem?_withoutIdle here busy)
    obtain ⟨op, known, other⟩ := Instruction.exists_opcode_of_not_idle busy
    have dispatched : (m.dispatch i).InStep id m.program.workBefore Outlet.BothUnfailing
        (k.dispatch i) :=
      { both.corresponds with
        position := by
          show k.position + 1 = m.program.workBefore (m.position + 1)
          rw [Program.workBefore_succ here, busy, both.corresponds.position]
          rfl
        order := rfl }
    obtain ⟨outcomes, noted⟩ := InStep.step_dispatched Outlet.coupled_bothUnfailing here there
      known known rfl dispatched other
    obtain ⟨program, -, -⟩ := step_fetched here
    obtain ⟨program', -, -⟩ := step_fetched there
    refine ⟨outcomes.imp_machine fun agree =>
      ⟨by rw [program, program', both.program], ?_⟩, noted⟩
    rw [program]
    exact agree.toCorresponds

/-! ## Runs -/

/-- The program without idle instructions follows a run of the whole program. -/
theorem Streamlined.follow (both : m.Streamlined k) (n : Nat) :
    ∃ l, Outcome.Streamlined (m.after n) (k.after l) ∧ k.prints l = m.prints n := by
  induction n with
  | zero => exact ⟨0, .next both, rfl⟩
  | succ n ih =>
    obtain ⟨l, outcomes, prints⟩ := ih
    rcases (m.after n).next_or_ended with ⟨j, reached⟩ | ended
    · rw [reached] at outcomes
      obtain ⟨j', reached', both⟩ := outcomes.exists_of_next
      have next : m.after (n + 1) = j.step := congrArg Outcome.resume reached
      rcases j.atWork_or_idle with working | ⟨i, here, idle⟩
      · obtain ⟨stepped, noted⟩ := both.step working
        have next' : k.after (l + 1) = j'.step := congrArg Outcome.resume reached'
        refine ⟨l + 1, by rw [next, next']; exact stepped, ?_⟩
        rw [prints_succ_of_next reached, prints_succ_of_next reached', noted, prints]
      · obtain ⟨j₁, stepped, both, -, -, silent⟩ := both.step_idle here idle
        refine ⟨l, by rw [next, stepped, reached']; exact .next both, ?_⟩
        rw [prints_succ_of_next reached, silent, prints]
        rfl
    · refine ⟨l, by rw [after_of_le ended (Nat.le_succ n)]; exact outcomes, ?_⟩
      rw [prints, Machine.prints, Machine.prints, notes_of_le ended (Nat.le_succ n)]

/-- The whole program passes the idle instructions before the next one that is not.  The induction
is on the number of instructions that are left. -/
theorem Streamlined.settle (both : m.Streamlined k) :
    ∃ n j, m.after n = .next j ∧ j.Streamlined k ∧ j.AtWork := by
  induction left : m.program.instructions.length - m.position generalizing m with
  | zero =>
    refine ⟨0, m, rfl, both, fun i here => ?_⟩
    have inside := (List.getElem?_eq_some_iff.1 here).1
    omega
  | succ rest ih =>
    rcases m.atWork_or_idle with working | ⟨i, here, idle⟩
    · exact ⟨0, m, rfl, both, working⟩
    · obtain ⟨j, stepped, both, program, position, -⟩ := both.step_idle here idle
      obtain ⟨n, j', reached, both, working⟩ := ih both (by rw [program, position]; omega)
      exact ⟨n + 1, j', (after_succ_of_next stepped n).trans reached, both, working⟩

/-- The whole program follows a run of the program without idle instructions. -/
theorem Streamlined.lead (both : m.Streamlined k) (l : Nat) :
    ∃ n, Outcome.Streamlined (m.after n) (k.after l) := by
  induction l with
  | zero => exact ⟨0, .next both⟩
  | succ l ih =>
    obtain ⟨n, outcomes⟩ := ih
    rcases (k.after l).next_or_ended with ⟨j', reached'⟩ | ended
    · rw [reached'] at outcomes
      obtain ⟨j, reached, both⟩ := outcomes.exists_of_next_right
      obtain ⟨d, j₁, settled, both, working⟩ := both.settle
      have next : m.after (n + d + 1) = j₁.step :=
        congrArg Outcome.resume ((after_add_of_next reached d).trans settled)
      have next' : k.after (l + 1) = j'.step := congrArg Outcome.resume reached'
      exact ⟨n + d + 1, by rw [next, next']; exact (both.step working).1⟩
    · exact ⟨n, by rw [after_of_le ended (Nat.le_succ l)]; exact outcomes⟩

theorem streamlined_ready (p s : Program) (input : Input) {out diagnostics : Outlet}
    (unfailing : diagnostics.Unfailing) :
    ((new p input out diagnostics).ready s).Streamlined
      ((new p.withoutIdle input out diagnostics).ready s.withoutIdle) where
  program := rfl
  corresponds := {
    labels := s.resolve?_build_withoutIdle
    memory := rfl
    stack := rfl
    calls := rfl
    position := s.workBefore_zero.symm
    input := rfl
    out := rfl
    diagnostics := ⟨unfailing, unfailing⟩ }

theorem Streamlined.record_left (m k : Machine) (e : Event) (both : m.Streamlined k) :
    (m.record e).Streamlined k :=
  ⟨both.program, { both.corresponds with }⟩

theorem Streamlined.record_right (m k : Machine) (e : Event) (both : m.Streamlined k) :
    m.Streamlined (k.record e) :=
  ⟨both.program, { both.corresponds with }⟩

theorem Streamlined.flushed (m k : Machine) (both : m.Streamlined k) :
    m.flushed.Streamlined k.flushed where
  program := both.program
  corresponds :=
    { both.corresponds with
      out := by rw [Machine.flushed, Machine.flushed, both.corresponds.out]
      diagnostics := both.corresponds.diagnostics.imp
        (·.of_sameRules (Outlet.sameRules_flush _)) (·.of_sameRules (Outlet.sameRules_flush _)) }

/-- Both runs end or neither does. -/
theorem Streamlined.ends_iff (both : m.Streamlined k) :
    (∃ n, (m.after n).result?.isSome) ↔ ∃ l, (k.after l).result?.isSome := by
  constructor
  · rintro ⟨n, ended⟩
    obtain ⟨l, outcomes, -⟩ := both.follow n
    exact ⟨l, outcomes.isSome_result?.trans ended⟩
  · rintro ⟨l, ended⟩
    obtain ⟨n, outcomes⟩ := both.lead l
    exact ⟨n, outcomes.isSome_result?.symm.trans ended⟩

/-- Runs that end, with outlets that do not refuse the last flush, have the same result. -/
theorem Streamlined.agree (both : m.Streamlined k) {n n' : Nat} {r r' : Except RunError Halt}
    {j j' : Machine} (flushed : (m.after n).machine.flush.1 = .ok ())
    (flushed' : ∀ l, (k.after l).machine.flush.1 = .ok ())
    (ended : (m.after n).result? = some (r, j))
    (ended' : (k.after n').result? = some (r', j')) :
    r' = r ∧ j.Streamlined j' ∧ k.prints n' = m.prints n := by
  obtain ⟨l, outcomes, prints⟩ := both.follow n
  have halted : (m.after n).result?.isSome := by rw [ended]; rfl
  have halted' : (k.after n').result?.isSome := by rw [ended']; rfl
  -- The second run has one end, so it is the one that follows the first run.
  obtain ⟨after, notes⟩ := eq_of_ended halted' (outcomes.isSome_result?.trans halted)
  have results := outcomes.result? record_left record_right Streamlined.flushed flushed
    (flushed' l)
  rw [after, ended, ended'] at results
  cases results with
  | some related =>
    obtain ⟨result, both⟩ := related
    refine ⟨result.trans (RunError.mapError_renumber_id r), both, ?_⟩
    rw [← prints, Machine.prints, Machine.prints, notes]

/-- **Idle instructions are transparent.**  Without its instructions that have no opcode and its
dumps without operands, a program that can be put in order ends just if it ended with them, on any
input and with outlets that never fail.  It has the same halt, or the same fault at the same
number, and it writes the same text and the same `DPRINT` texts.  It leaves the same frames, the
same data stack and the same rest of the input. -/
theorem run_withoutIdle {p s : Program} (ordered : p.ordered = .ok s) (input : Input)
    {out diagnostics : Outlet} (takesOut : out.Unfailing)
    (takesDiagnostics : diagnostics.Unfailing) :
    let m := new p input out diagnostics
    let k := new p.withoutIdle input out diagnostics
    p.withoutIdle.ordered = .ok s.withoutIdle ∧
      ((∃ bound, (m.run bound).isSome) ↔ ∃ bound, (k.run bound).isSome) ∧
      ∀ bound bound' r r' j j', m.run bound = some (r, j) → k.run bound' = some (r', j') →
        r' = r ∧ j'.out.text = j.out.text ∧
          (k.ready s.withoutIdle).prints bound' = (m.ready s).prints bound ∧
          j'.memory = j.memory ∧ j'.stack = j.stack ∧ j'.input = j.input := by
  intro m k
  have ordered' : k.program.ordered = .ok s.withoutIdle := Program.ordered_withoutIdle ordered
  have both : (m.ready s).Streamlined (k.ready s.withoutIdle) :=
    streamlined_ready p s input takesDiagnostics
  simp only [run_eq_result? (m := m) ordered, run_eq_result? ordered']
  refine ⟨ordered', both.ends_iff, fun bound bound' r r' j j' ended ended' => ?_⟩
  obtain ⟨result, left, prints⟩ :=
    both.agree (flush_after takesOut.flush takesDiagnostics.flush bound)
    (flush_after takesOut.flush takesDiagnostics.flush) ended ended'
  have same := left.corresponds
  exact ⟨result, congrArg Outlet.text same.out, prints, same.memory, same.stack, same.input⟩

/-- A loop that calls a routine, with idle instructions in both and around the labels.  The runs
fail at a dump with an operand, after 27 steps and after 16. -/
theorem run_withoutIdle_loop :
    let n : Place := ⟨.global, "n"⟩
    let i (op : Opcode) (xs : List Operand) (order : Nat) : Instruction := ⟨.known op, xs, order⟩
    let nop (order : Nat) : Instruction := ⟨.unknown "NOP", [.place n], order⟩
    let p : Program := ⟨[nop 5, i .defvar [.place n] 10, i .break [] 15,
      i .move [.place n, .literal (.int 0)] 20, i .jump [.label "loop"] 25,
      i .label [.label "next"] 30, nop 35, i .add [.place n, .place n, .literal (.int 1)] 40,
      i .break [] 42, i .ret [] 45, i .label [.label "loop"] 50, i .break [] 55,
      i .call [.label "next"] 60, nop 65, i .dprint [.place n] 70, i .write [.place n] 72,
      i .jumpIfNeq [.label "loop", .place n, .literal (.int 2)] 80, nop 85,
      i .break [.place n] 90]⟩
    let m := new p (.ofText "") .reliable .reliable
    let k := new p.withoutIdle (.ofText "") .reliable .reliable
    ∃ s r r' j j', p.ordered = .ok s ∧ m.run 27 = some (r, j) ∧ k.run 16 = some (r', j') ∧
      ((∃ bound, (m.run bound).isSome) ↔ ∃ bound, (k.run bound).isSome) ∧
      r = .error (.fault ⟨90, .operandCount .break 1⟩) ∧ r' = r ∧ j'.out.text = j.out.text ∧
      (k.ready s.withoutIdle).prints 16 = (m.ready s).prints 27 ∧ j'.memory = j.memory ∧
      j'.stack = j.stack ∧ j'.input = j.input := by
  intro n i nop p m k
  have taken : Outlet.reliable.Unfailing := ⟨fun _ => rfl, fun _ _ => rfl⟩
  obtain ⟨s, ordered⟩ : ∃ s, p.ordered = .ok s := ⟨_, rfl⟩
  have fails : (m.run 27).map (·.1) = some (.error (.fault ⟨90, .operandCount .break 1⟩)) := by
    decide +kernel
  have ends : (k.run 16).isSome := by decide +kernel
  obtain ⟨⟨r, j⟩, ended, failed⟩ := Option.map_eq_some_iff.1 fails
  obtain ⟨⟨r', j'⟩, ended'⟩ := Option.isSome_iff_exists.1 ends
  obtain ⟨-, halts, alike⟩ := run_withoutIdle ordered (.ofText "") taken taken
  exact ⟨s, r, r', j, j', ordered, ended, ended', halts, failed,
    alike 27 16 r r' j j' ended ended'⟩

end Machine

end FrameCode
