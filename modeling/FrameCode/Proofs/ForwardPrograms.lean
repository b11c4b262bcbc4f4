import FrameCode.Proofs.Control
import Mathlib.Algebra.GroupWithZero.Nat

/-!
# Forward programs

A program is forward if every call and jump leads to a position after its own.  Each run of
such a program ends, although a `RETURN` leads back, and although a routine may be called
again and again.

The rank of a state adds up a weight for its position and for each of its calls.  The weight
doubles with every instruction from the end of the program back to its start, so the position
of a `CALL` weighs more than the label and the position after it together.  Every step that
takes an instruction lowers the rank, which therefore bounds the number of instructions taken
in a whole run.
-/

namespace FrameCode

/-- The position of the label that a call or a jump names. -/
def Instruction.target? (i : Instruction) (labels : Labels) : Option Nat :=
  match i.opcode?, i.operands with
  | some .call, .label name :: _ => labels.resolve? name
  | some .jump, .label name :: _ => labels.resolve? name
  | some .jumpIfEq, .label name :: _ => labels.resolve? name
  | some .jumpIfNeq, .label name :: _ => labels.resolve? name
  | _, _ => none

theorem Instruction.target?_of_label {i : Instruction} {name : String} {labels : Labels}
    (label : i.operands.head? = some (.label name))
    (known : i.opcode? = some .call ∨ i.opcode? = some .jump ∨ i.opcode? = some .jumpIfEq ∨
      i.opcode? = some .jumpIfNeq) : i.target? labels = labels.resolve? name := by
  obtain ⟨rest, operands⟩ := List.head?_eq_some_iff.1 label
  rcases known with known | known | known | known <;> rw [target?, known, operands]

/-- Every call and every jump leads to a position after its own, or its label is undefined. -/
def Program.ForwardBy (p : Program) (labels : Labels) : Prop :=
  ∀ (n : Nat) (i : Instruction) (c : Nat),
    p.instructions[n]? = some i → i.target? labels = some c → n < c

/-- The program is forward by its own labels. -/
def Program.Forward (p : Program) : Prop := p.ForwardBy (Labels.build p).1

instance (p : Program) : Decidable p.Forward :=
  decidable_of_iff
    (∀ x ∈ p.instructions.zipIdx, ∀ c ∈ x.1.target? (Labels.build p).1, x.2 < c) (by
      simp only [Program.Forward, Program.ForwardBy, List.mem_zipIdx_iff_getElem?, Option.mem_def,
        Prod.forall]
      exact ⟨fun all n i c found => all i n found c, fun all i n found c => all n i c found⟩)

/-! ## Weights -/

namespace Program

variable {p : Program} {c d : Nat}

/-- The number of instructions that a run can take at most from a position on, before it goes back
to a call that was made earlier. -/
def weight (p : Program) (c : Nat) : Nat := 2 ^ (p.instructions.length - c) - 1

theorem weight_of_lt (inside : c < p.instructions.length) :
    p.weight c = 2 * p.weight (c + 1) + 1 := by
  have next : p.instructions.length - c = (p.instructions.length - (c + 1)) + 1 := by omega
  have positive : 0 < 2 ^ (p.instructions.length - (c + 1)) := Nat.two_pow_pos _
  rw [weight, weight, next, Nat.pow_succ]
  omega

theorem weight_le (later : c ≤ d) : p.weight d ≤ p.weight c :=
  Nat.sub_le_sub_right (Nat.pow_le_pow_right (by decide) (Nat.sub_le_sub_left later _)) 1

end Program

namespace Machine

variable {m k : Machine} {i : Instruction}

/-- The weight of the position and of all calls together. -/
def rank (m : Machine) : Nat :=
  ((m.position :: m.calls).map m.program.weight).sum

/-- The program is forward by the labels of the machine. -/
def Forward (m : Machine) : Prop := m.program.ForwardBy m.labels

theorem Forward.after (forward : m.Forward) (n : Nat) : (m.after n).machine.Forward := by
  obtain ⟨program, labels⟩ := after_program m n
  rw [Forward, program, labels]
  exact forward

theorem forward_ready (m : Machine) {q : Program} (forward : q.Forward) :
    (m.ready q).Forward :=
  forward

theorem rank_ready (m : Machine) (q : Program) :
    (m.ready q).rank = 2 ^ q.instructions.length - 1 := rfl

/-! ## One step -/

/-- Wherever control is transferred to, the weight is less. -/
theorem Transfer.weight_lt {c : Nat} {calls : List Nat} (transfer : m.Transfer i c calls)
    (forward : m.Forward) (fetched : m.fetch? = some i) :
    ((c :: calls).map m.program.weight).sum < m.rank := by
  have here := Program.weight_of_lt (List.getElem?_eq_some_iff.1 fetched).1
  have later {c : Nat} (target : i.target? m.labels = some c) :
      m.program.weight c ≤ m.program.weight (m.position + 1) :=
    Program.weight_le (forward _ i c fetched target)
  simp only [rank, List.map_cons, List.sum_cons]
  cases transfer with
  | onward => omega
  | jump known label resolved =>
    have le := later ((Instruction.target?_of_label label (.inr known)).trans resolved)
    omega
  | call known label resolved =>
    -- The position after the call goes on the calls, so its weight counts twice from here on.
    have le := later ((Instruction.target?_of_label label (.inl known)).trans resolved)
    simp only [List.map_cons, List.sum_cons]
    omega
  | ret _ pushed =>
    simp only [pushed, List.map_cons, List.sum_cons]
    omega

end Machine

/-- The rank of the state that a run goes on from; a run that has ended has none. -/
def Outcome.rank : Outcome → Nat
  | next m => m.rank
  | halted _ _ => 0
  | failed _ _ => 0

/-- The number of instructions that the next step takes from the program. -/
def Outcome.fetches : Outcome → Nat
  | next m => if m.fetch?.isSome then 1 else 0
  | halted _ _ => 0
  | failed _ _ => 0

namespace Machine

variable {m k : Machine} {i : Instruction}

/-- The number of instructions that a run takes from the program in a number of steps. -/
def fetches (m : Machine) : Nat → Nat
  | 0 => 0
  | n + 1 => m.fetches n + (m.after n).fetches

/-- A step that takes an instruction lowers the rank. -/
theorem Forward.step_rank_lt (forward : m.Forward) (fetched : m.fetch? = some i) :
    m.step.rank < m.rank := by
  have positive : 0 < m.rank := by
    have here := Program.weight_of_lt (List.getElem?_eq_some_iff.1 fetched).1
    simp only [rank, List.map_cons, List.sum_cons]
    omega
  have directs := step_directs fetched
  have program := step_program m
  cases stepped : m.step with
  | next k =>
    rw [stepped] at directs program
    have less := Transfer.weight_lt directs forward fetched
    rw [← (program : k.program = m.program)] at less
    exact less
  | halted h k | failed e k => exact positive

theorem Forward.fetches_add_rank_resume {o : Outcome} (forward : o.machine.Forward) :
    o.fetches + o.resume.rank ≤ o.rank := by
  cases o with
  | next m =>
    show (if m.fetch?.isSome then 1 else 0) + m.step.rank ≤ m.rank
    cases fetched : m.fetch? with
    | none =>
      rw [step_of_fetch?_none fetched]
      exact Nat.zero_le _
    | some i =>
      have less : m.step.rank < m.rank := step_rank_lt forward fetched
      simp
      omega
  | halted h m | failed e m => exact Nat.le_refl 0

/-! ## Runs -/

/-- What a run has taken from the program and what the rank leaves it are not more than the rank
that it started with. -/
theorem Forward.fetches_add_rank_le (forward : m.Forward) (n : Nat) :
    m.fetches n + (m.after n).rank ≤ m.rank := by
  induction n with
  | zero => exact Nat.le_of_eq (Nat.zero_add m.rank)
  | succ n ih =>
    have less := fetches_add_rank_resume (forward.after n)
    have step : (m.after (n + 1)).rank = (m.after n).resume.rank := rfl
    rw [fetches, step]
    omega

/-- As long as a run goes on, each of its steps has taken an instruction. -/
theorem fetches_of_next {n : Nat} (reached : m.after n = .next k) : m.fetches n = n := by
  induction n generalizing k with
  | zero => rfl
  | succ n ih =>
    rw [after] at reached
    cases before : m.after n with
    | next j =>
      rw [before] at reached
      have taken : j.fetch?.isSome := by
        cases fetched : j.fetch? with
        | none =>
          have stepped : j.step = .next k := reached
          rw [step_of_fetch?_none fetched] at stepped
          cases stepped
        | some i => rfl
      rw [fetches, ih before, before]
      exact congrArg (n + ·) (if_pos taken)
    | halted h j | failed e j =>
      rw [before] at reached
      cases reached

/-- A run ends in more steps than its rank. -/
theorem Forward.ends (forward : m.Forward) {n : Nat} (enough : m.rank < n) :
    (m.after n).result?.isSome := by
  -- A run that has not ended has taken `n` instructions, which is more than the rank allows.
  rcases (m.after n).next_or_ended with ⟨k, reached⟩ | ended
  · have taken := fetches_of_next reached
    have bounded := forward.fetches_add_rank_le n
    omega
  · exact ended

/-- **Forward programs end.**  If every call and every jump of a program in order leads to a
position after its own, or its label is undefined, then each run of it ends, on any input and with
any outlets: it halts or it fails.  With `n` instructions it takes fewer than `2 ^ n`
instructions, and so at most `3 ^ n`. -/
theorem run_of_forward {q : Program} (ordered : m.program.ordered = .ok q) (forward : q.Forward) :
    (∃ result, ∀ bound, 2 ^ q.instructions.length ≤ bound → m.run bound = some result) ∧
      ∀ bound, (m.ready q).fetches bound < 2 ^ q.instructions.length ∧
        (m.ready q).fetches bound ≤ 3 ^ q.instructions.length := by
  have ready : (m.ready q).Forward := forward_ready m forward
  have rank := rank_ready m q
  have positive : 0 < 2 ^ q.instructions.length := Nat.two_pow_pos _
  constructor
  · have ended : ((m.ready q).after (2 ^ q.instructions.length)).result?.isSome :=
      ready.ends (by omega)
    obtain ⟨result, done⟩ := Option.isSome_iff_exists.1 ended
    refine ⟨result, fun bound enough => ?_⟩
    rw [run_eq_result? ordered, after_of_le ended enough, done]
  · intro bound
    have fewer : (m.ready q).fetches bound < 2 ^ q.instructions.length := by
      have bounded := ready.fetches_add_rank_le bound
      omega
    exact ⟨fewer, Nat.le_trans (Nat.le_of_lt fewer) (Nat.pow_le_pow_left (by decide) _)⟩

/-- Two calls lead into the code that follows them, which is taken again after each `RETURN`.  The
run takes 14 instructions of the 6 that there are, and fails when no call is left. -/
theorem run_of_forward_doubling :
    let i (op : Opcode) (xs : List Operand) (order : Nat) : Instruction := ⟨.known op, xs, order⟩
    let p : Program := ⟨[i .call [.label "a"] 1, i .label [.label "a"] 2, i .call [.label "b"] 3,
      i .label [.label "b"] 4, i .write [.literal (.int 1)] 5, i .ret [] 6]⟩
    let m := new p (.ofText "") .reliable .reliable
    ∃ result k, p.ordered = .ok p ∧ p.Forward ∧
      (∀ bound, 2 ^ 6 ≤ bound → m.run bound = some (result, k)) ∧
      result = .error (.fault ⟨6, .callStackEmpty⟩) ∧ (m.ready p).fetches 14 = 14 ∧
      ∀ bound, (m.ready p).fetches bound < 2 ^ 6 ∧ (m.ready p).fetches bound ≤ 3 ^ 6 := by
  intro i p m
  have ordered : m.program.ordered = .ok p := rfl
  have forward : p.Forward := by decide
  have fails : (m.run (2 ^ 6)).map (·.1) = some (.error (.fault ⟨6, .callStackEmpty⟩)) := by
    decide +kernel
  obtain ⟨⟨⟨result, k⟩, ended⟩, taken⟩ := run_of_forward ordered forward
  have result_eq : result = .error (.fault ⟨6, .callStackEmpty⟩) := by
    rw [ended (2 ^ 6) (Nat.le_refl _)] at fails
    exact Option.some.inj fails
  exact ⟨result, k, ordered, forward, ended, result_eq, by decide +kernel, taken⟩

end Machine

end FrameCode
