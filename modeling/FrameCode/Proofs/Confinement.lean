import FrameCode.Proofs.Control
import FrameCode.Proofs.Ordering

/-!
# Confinement

Control stays inside the program.  In every state of a run the position is at most the end of the
program, each call on the stack is to go on right after a `CALL`, and each label stands right
after the last instruction that defines it.  A step keeps this whatever it transfers control to,
since a transfer goes past an instruction, to a label of the index or to a call of the stack.

So a run is finished just at the end of the program: it starts there, or its last step led there.
-/

namespace FrameCode

/-- The position comes right after a call. -/
def Program.AfterCall (p : Program) (c : Nat) : Prop :=
  1 ≤ c ∧ c ≤ p.instructions.length ∧
    ∃ i, p.instructions[c - 1]? = some i ∧ i.opcode? = some .call

/-- The position comes right after the last definition of a label. -/
def Program.AfterLabel (p : Program) (name : String) (c : Nat) : Prop :=
  1 ≤ c ∧ c ≤ p.instructions.length ∧ p.DefinesLast name (c - 1)

/-- The labels of the index stand in the program. -/
theorem Program.afterLabel_of_resolve? {p : Program} {name : String} {c : Nat}
    (resolved : (Labels.build p).1.resolve? name = some c) : p.AfterLabel name c := by
  obtain ⟨n, defines, rfl⟩ := Labels.resolve?_build_eq_some_iff.1 resolved
  exact ⟨Nat.le_add_left 1 n, Program.lt_length_of_labelAt? defines.here, defines⟩

namespace Machine

variable {m k : Machine} {i : Instruction}

/-- The position, the calls and the labels are inside the program. -/
structure Confined (m : Machine) : Prop where
  position : m.position ≤ m.program.instructions.length
  calls : ∀ c ∈ m.calls, m.program.AfterCall c
  labels : ∀ name c, m.labels.resolve? name = some c → m.program.AfterLabel name c

/-! ## The invariant -/

theorem confined_ready (m : Machine) (q : Program) : (m.ready q).Confined where
  position := Nat.zero_le _
  calls := nofun
  labels := fun _ _ => Program.afterLabel_of_resolve?

/-- Wherever control is transferred to, it stays inside the program. -/
theorem Confined.transfer (confined : m.Confined) (fetched : m.fetch? = some i) {c : Nat}
    {calls : List Nat} (transfer : m.Transfer i c calls) :
    c ≤ m.program.instructions.length ∧ ∀ d ∈ calls, m.program.AfterCall d := by
  have inside : m.position < m.program.instructions.length :=
    (List.getElem?_eq_some_iff.1 fetched).1
  cases transfer with
  | onward => exact ⟨inside, confined.calls⟩
  | jump _ _ resolved => exact ⟨(confined.labels _ _ resolved).2.1, confined.calls⟩
  | call known _ resolved =>
    have here : m.program.AfterCall (m.position + 1) :=
      ⟨Nat.le_add_left 1 _, inside, i, fetched, known⟩
    exact ⟨(confined.labels _ _ resolved).2.1, List.forall_mem_cons.2 ⟨here, confined.calls⟩⟩
  | ret _ pushed =>
    have returns := confined.calls
    rw [pushed] at returns
    obtain ⟨here, others⟩ := List.forall_mem_cons.1 returns
    exact ⟨here.2.1, others⟩

/-- A step of a confined machine leaves a confined machine, also if it fails. -/
theorem Confined.step (confined : m.Confined) : m.step.machine.Confined := by
  cases fetched : m.fetch? with
  | none =>
    rw [step_of_fetch?_none fetched]
    exact confined
  | some i =>
    obtain ⟨program, labels, -⟩ := step_fetched fetched
    have control : m.step.machine.position ≤ m.program.instructions.length ∧
        ∀ c ∈ m.step.machine.calls, m.program.AfterCall c := by
      have inside : m.position < m.program.instructions.length :=
        (List.getElem?_eq_some_iff.1 fetched).1
      have directs := step_directs fetched
      cases stepped : m.step with
      | next k =>
        rw [stepped] at directs
        exact confined.transfer fetched directs
      | halted h k =>
        rw [stepped] at directs
        obtain ⟨position, calls⟩ : k.position = m.position + 1 ∧ k.calls = m.calls := directs
        exact ⟨position ▸ inside, calls ▸ confined.calls⟩
      | failed e k =>
        rw [stepped] at directs
        obtain ⟨position, calls⟩ : k.position = m.position + 1 ∧ k.calls = m.calls := directs
        exact ⟨position ▸ inside, calls ▸ confined.calls⟩
    exact {
      position := program ▸ control.1
      calls := program ▸ control.2
      labels := by
        rw [program, labels]
        exact confined.labels }

theorem Confined.after (confined : m.Confined) (n : Nat) : (m.after n).machine.Confined :=
  after_induction (P := fun o => o.machine.Confined) confined (fun _ held => held.step) n

/-! ## The last step -/

/-- A run that has halted did so in a step of its own. -/
theorem exists_step_of_halted {n : Nat} {h : Halt} (halted : m.after n = .halted h k) :
    ∃ l j, m.after l = .next j ∧ j.step = .halted h k := by
  induction n with
  | zero => cases halted
  | succ n ih =>
    unfold after at halted
    cases reached : m.after n with
    | next j =>
      rw [reached] at halted
      exact ⟨n, j, reached, halted⟩
    | halted h' j =>
      rw [reached] at halted
      exact ih (reached.trans halted)
    | failed e j =>
      rw [reached] at halted
      cases halted

/-- A state that a run goes on from is its first one, or a step led there. -/
theorem eq_or_exists_step {n : Nat} (reached : m.after n = .next k) :
    k = m ∨ ∃ l j, m.after l = .next j ∧ j.step = .next k := by
  cases n with
  | zero =>
    cases reached
    exact .inl rfl
  | succ n =>
    unfold after at reached
    cases before : m.after n with
    | next j =>
      rw [before] at reached
      exact .inr ⟨n, j, before, reached⟩
    | halted h j =>
      rw [before] at reached
      cases reached
    | failed e j =>
      rw [before] at reached
      cases reached

/-- A run is finished at the end of the program: it has not taken a step, or its last
step led there. -/
theorem Confined.arrives (confined : m.Confined) {n : Nat}
    (finished : m.after n = .halted .finished k) :
    k.position = m.program.instructions.length ∧
      (k = m ∨ ∃ l j i, m.after l = .next j ∧ j.fetch? = some i ∧
        j.Transfer i k.position k.calls) := by
  obtain ⟨l, j, reached, last⟩ := exists_step_of_halted finished
  obtain ⟨past, rfl⟩ := fetch?_of_finished last
  have inside := confined.after l
  have kept := (after_program m l).1
  rw [reached] at inside kept
  replace inside : k.Confined := inside
  replace kept : k.program = m.program := kept
  -- There is no instruction at the position, which cannot be past the end either.
  have least : k.program.instructions.length ≤ k.position := List.getElem?_eq_none_iff.1 past
  refine ⟨kept ▸ Nat.le_antisymm inside.position least, ?_⟩
  rcases eq_or_exists_step reached with start | ⟨l, j, before, stepped⟩
  · exact .inl start
  · cases fetched : j.fetch? with
    | none =>
      rw [step_of_fetch?_none fetched] at stepped
      cases stepped
    | some i =>
      have directs := step_directs fetched
      rw [stepped] at directs
      exact .inr ⟨l, j, i, before, fetched, directs⟩

/-! ## Runs -/

/-- **Control stays inside the program.**  In every state of a run of a program that can be put
in order, on any machine, the position, the calls and the labels are inside the program in
order.  So the steps end with the program finished only when the position is its end, where
control was from the start or where the last step has led, past the last instruction or by a
jump, a call or a return. -/
theorem confined_of_visits {q : Program} (ordered : m.program.ordered = .ok q) :
    (∀ k, m.Visits k → k.program = q ∧ k.Confined) ∧
      ∀ s bound k, m.start = .ok s → loop bound s = some (.ok .finished, k) →
        k.position = q.instructions.length ∧
          (q.instructions = [] ∨ ∃ j i, m.Visits j ∧ q.instructions[j.position]? = some i ∧
            j.Transfer i k.position k.calls) := by
  have started := start_of_ordered ordered
  have confined := confined_ready m q
  refine ⟨fun k visited => ?_, fun s bound k success finished => ?_⟩
  · cases visited with
    | unordered failed =>
      rw [started] at failed
      cases failed
    | after n success =>
      obtain rfl := Except.ok.inj (started.symm.trans success)
      exact ⟨(after_program (m.ready q) n).1, confined.after n⟩
  · obtain rfl := Except.ok.inj (started.symm.trans success)
    rw [loop_eq_ending?] at finished
    have halted := Outcome.ending?_eq_ok_iff.1 finished
    obtain ⟨position, arrived⟩ := confined.arrives halted
    refine ⟨position, ?_⟩
    rcases arrived with rfl | ⟨l, j, i, reached, fetched, transfer⟩
    · exact .inl (List.eq_nil_of_length_eq_zero position.symm)
    · have visited : m.Visits j := by
        have machine : ((m.ready q).after l).machine = j := by
          rw [reached]
          rfl
        exact machine ▸ .after l started
      have kept := (after_program (m.ready q) l).1
      rw [reached] at kept
      replace kept : j.program = q := kept
      exact .inr ⟨j, i, visited, kept ▸ fetched, transfer⟩

/-- A call that is the last instruction: its routine stands before it, and returns to the end
of the program. -/
theorem confined_of_visits_return :
    let p : Program := ⟨[⟨.known .call, [.label "f"], 50⟩, ⟨.known .label, [.label "f"], 10⟩,
      ⟨.known .jump, [.label "main"], 20⟩, ⟨.known .label, [.label "f"], 30⟩,
      ⟨.known .ret, [], 35⟩, ⟨.known .label, [.label "main"], 40⟩]⟩
    let m := new p (.ofText "") .reliable .reliable
    ∃ q s k, p.ordered = .ok q ∧ m.start = .ok s ∧ loop 7 s = some (.ok .finished, k) ∧
      (∀ k, m.Visits k → k.program = q ∧ k.Confined) ∧ s.labels.resolve? "f" = some 3 ∧
      k.position = 6 ∧ ∃ j i, m.Visits j ∧ q.instructions[j.position]? = some i ∧
        j.Transfer i k.position k.calls := by
  intro p m
  obtain ⟨q, ordered, length⟩ : ∃ q, m.program.ordered = .ok q ∧ q.instructions.length = 6 :=
    ⟨_, rfl, rfl⟩
  obtain ⟨s, started, label, k, finished⟩ : ∃ s, m.start = .ok s ∧
      s.labels.resolve? "f" = some 3 ∧ ∃ k, loop 7 s = some (.ok .finished, k) :=
    ⟨_, rfl, by decide, _, rfl⟩
  obtain ⟨inside, ends⟩ := confined_of_visits ordered
  obtain ⟨position, arrived⟩ := ends s 7 k started finished
  refine ⟨q, s, k, ordered, started, finished, inside, label, position.trans length, ?_⟩
  rcases arrived with empty | arrived
  · rw [empty] at length
    cases length
  · exact arrived

end Machine

end FrameCode
