import FrameCode.Machine.Run
import FrameCode.Proofs.Requests
import FrameCode.Proofs.Results

/-!
# Executions

`Machine.after` is the outcome of a machine after a given number of steps, and `loop` is the
ending of that outcome.  A run is followed state by state in this form: what holds at the start
and is kept by every step holds of every state that the run visits.

The rules for `attempt`, `access`, `update` and `store` reduce a fact about the outcome of an
instruction to the same fact about the parts of the instruction.  A fact can be about the machine
that is left, about the fault of a failure, or about the machine that a failure leaves.
-/

namespace FrameCode

/-! ## Outcomes -/

namespace Outcome

/-- The machine that an outcome leaves. -/
def machine : Outcome → Machine
  | next m => m
  | halted _ m => m
  | failed _ m => m

/-- The outcome of one more step, as long as the run has not ended. -/
def resume : Outcome → Outcome
  | next m => m.step
  | halted h m => halted h m
  | failed e m => failed e m

/-- How the run has ended and the machine it left; `none` as long as it goes on. -/
def ending? : Outcome → Option (Except Fault Halt × Machine)
  | next _ => none
  | halted h m => some (.ok h, m)
  | failed e m => some (.error e, m)

/-- The result of a run that has ended in this outcome, and what is left after the flush. -/
def result? : Outcome → Option (Except RunError Halt × Machine)
  | next _ => none
  | halted h m => some (m.finish (.ok h))
  | failed e m => some (m.finish (.error e))

theorem next_or_ended (o : Outcome) : (∃ m, o = .next m) ∨ o.result?.isSome := by
  cases o with
  | next m => exact .inl ⟨m, rfl⟩
  | halted h m => exact .inr rfl
  | failed e m => exact .inr rfl

theorem resume_of_ended {o : Outcome} (ended : o.result?.isSome) : o.resume = o := by
  cases o with
  | next m => cases ended
  | halted h m => rfl
  | failed e m => rfl

/-- A failure, if the outcome is one, has the given property. -/
def Fails (Q : Fault → Prop) : Outcome → Prop
  | next _ => True
  | halted _ _ => True
  | failed e _ => Q e

theorem Fails.imp {Q R : Fault → Prop} (implies : ∀ e, Q e → R e) {o : Outcome}
    (fails : o.Fails Q) : o.Fails R := by
  cases o with
  | next => trivial
  | halted => trivial
  | failed e => exact implies e fails

/-- The machine that a failure leaves, if the outcome is one, has the given property. -/
def FailsAt (Q : Machine → Prop) : Outcome → Prop
  | next _ => True
  | halted _ _ => True
  | failed _ m => Q m

theorem FailsAt.imp {Q R : Machine → Prop} (implies : ∀ m, Q m → R m) {o : Outcome}
    (fails : o.FailsAt Q) : o.FailsAt R := by
  cases o with
  | next => trivial
  | halted => trivial
  | failed e m => exact implies m fails

section Ending

variable {o : Outcome} {ending : Except Fault Halt} {k : Machine}

theorem ending?_eq_ok_iff {h : Halt} : o.ending? = some (.ok h, k) ↔ o = .halted h k := by
  cases o <;> simp [ending?]

theorem machine_of_ending? (ended : o.ending? = some (ending, k)) : o.machine = k := by
  cases o <;> cases ended <;> rfl

theorem fails_iff_of_ending? (ended : o.ending? = some (ending, k)) {Q : Fault → Prop} :
    o.Fails Q ↔ ∀ e, ending = .error e → Q e := by
  cases o with
  | next => cases ended
  | halted h =>
    cases ended
    refine ⟨fun _ e failed => ?_, fun _ => trivial⟩
    cases failed
  | failed cause =>
    cases ended
    refine ⟨fun held e failed => ?_, fun all => all cause rfl⟩
    obtain rfl := Except.error.inj failed
    exact held

end Ending

end Outcome

/-! ## Values of lines -/

/-- The value of a line for a type; `none` for a type that cannot be read. -/
def Line.value? (line : Line) : ValueType → Option Value
  | .int => some (.int line.int)
  | .bool => some (.bool line.bool)
  | .string => some (.ofText line.plain)
  | .nil => none

/-- A line has a value for just the readable types. -/
theorem Line.isSome_value? (line : Line) (t : ValueType) :
    (line.value? t).isSome = t.readable := by
  cases t <;> rfl

/-- A line has no value for a type, known or not, just if that type cannot be read. -/
theorem Line.bind_value?_eq_none_iff (line : Line) {type? : Option ValueType} :
    type?.bind line.value? = none ↔ type?.filter ValueType.readable = none := by
  cases type? with
  | none => exact ⟨fun _ => rfl, fun _ => rfl⟩
  | some t =>
    rw [Option.bind_some, ← Option.not_isSome_iff_eq_none, line.isSome_value?, Option.filter_some]
    cases t.readable <;> simp

namespace Machine

/-! ## The start of a run -/

/-- The machine that is about to run a program which has been put in order. -/
def ready (m : Machine) (program : Program) : Machine :=
  let (labels, redefinitions) := Labels.build program
  { m.reset with
    program
    labels
    journal := (redefinitions.map Event.redefined).reverse }.record
      (.started program.instructions.length labels.size)

theorem start_eq (m : Machine) : m.start = m.program.ordered.map m.ready := by
  unfold start
  cases m.program.ordered with
  | ok program => rfl
  | error e => rfl

theorem start_of_ordered {m : Machine} {q : Program} (ordered : m.program.ordered = .ok q) :
    m.start = .ok (m.ready q) := by
  rw [start_eq, ordered]
  rfl

theorem start_of_refused {m : Machine} {e : OrderError} (refused : m.program.ordered = .error e) :
    m.start = .error e := by
  rw [start_eq, refused]
  rfl

/-! ## Following a run -/

/-- The outcome after a number of steps.  A run that has ended stays where it is. -/
def after (m : Machine) : Nat → Outcome
  | 0 => .next m
  | n + 1 => (m.after n).resume

/-- The states of the run of a machine, the last one included. -/
inductive Visits (m : Machine) : Machine → Prop
  | unordered {e : OrderError} : m.start = .error e → Visits m m.reset
  | after {s : Machine} (n : Nat) : m.start = .ok s → Visits m (s.after n).machine

variable {m : Machine}

/-- What holds at the start and is kept by every step holds after any number of steps. -/
theorem after_induction {P : Outcome → Prop} (start : P (.next m))
    (step : ∀ k, P (.next k) → P k.step) (n : Nat) : P (m.after n) := by
  induction n with
  | zero => exact start
  | succ n ih =>
    unfold after
    cases reached : m.after n with
    | next k =>
      rw [reached] at ih
      exact step k ih
    | halted h k =>
      rw [reached] at ih
      exact ih
    | failed e k =>
      rw [reached] at ih
      exact ih

theorem after_succ_of_next {k : Machine} (first : m.step = .next k) (n : Nat) :
    m.after (n + 1) = k.after n := by
  induction n with
  | zero => exact first
  | succ n ih => exact congrArg Outcome.resume ih

/-- A run that has reached a state goes on as the run from that state. -/
theorem after_add_of_next {n : Nat} {k : Machine} (reached : m.after n = .next k) (d : Nat) :
    m.after (n + d) = k.after d := by
  induction d with
  | zero => exact reached
  | succ d ih => exact congrArg Outcome.resume ih

/-- A run that has ended stays where it is. -/
theorem after_of_le {n n' : Nat} (ended : (m.after n).result?.isSome) (le : n ≤ n') :
    m.after n' = m.after n := by
  induction le with
  | refl => rfl
  | step _ ih => exact (congrArg Outcome.resume ih).trans (Outcome.resume_of_ended ended)

/-- A run that ends with its first step has ended after any number of steps. -/
theorem after_succ_of_ending {r : Except Fault Halt × Machine} (first : m.step.ending? = some r)
    (n : Nat) : (m.after (n + 1)).ending? = some r := by
  induction n with
  | zero => exact first
  | succ n ih =>
    unfold after
    cases reached : m.after (n + 1) with
    | next k =>
      rw [reached] at ih
      cases ih
    | halted h k =>
      rw [reached] at ih
      exact ih
    | failed e k =>
      rw [reached] at ih
      exact ih

/-- A bounded run gives the ending of the outcome after as many steps. -/
theorem loop_eq_ending? (bound : Nat) (m : Machine) :
    loop bound m = (m.after bound).ending? := by
  induction bound generalizing m with
  | zero => rfl
  | succ bound ih =>
    unfold loop
    cases first : m.step with
    | next k =>
      rw [after_succ_of_next first bound]
      exact ih k
    | halted h k =>
      have ended : m.step.ending? = some (.ok h, k) := by rw [first]; rfl
      exact (after_succ_of_ending ended bound).symm
    | failed e k =>
      have ended : m.step.ending? = some (.error e, k) := by rw [first]; rfl
      exact (after_succ_of_ending ended bound).symm

/-- A program that cannot be put in order is not run. -/
theorem run_of_refused {e : OrderError} (refused : m.program.ordered = .error e) (bound : Nat) :
    m.run bound = some (.error (.unordered e), m.reset) := by
  rw [run, start_of_refused refused]

/-- A run takes the steps of the machine that is ready for it, and then it flushes. -/
theorem run_eq_result? {q : Program} (ordered : m.program.ordered = .ok q) (bound : Nat) :
    m.run bound = ((m.ready q).after bound).result? := by
  rw [run, start_of_ordered ordered]
  dsimp only
  rw [loop_eq_ending?]
  cases (m.ready q).after bound <;> rfl

/-- A run that ends took the steps of the machine that was ready for it, and then flushed. -/
theorem run_eq_some {q : Program} (ordered : m.program.ordered = .ok q) {bound : Nat}
    {result : Except RunError Halt} {k : Machine} (ended : m.run bound = some (result, k)) :
    ∃ ending left, ((m.ready q).after bound).ending? = some (ending, left) ∧
      left.finish ending = (result, k) := by
  rw [run_eq_result? ordered] at ended
  cases reached : (m.ready q).after bound with
  | next j =>
    rw [reached] at ended
    cases ended
  | halted h j =>
    rw [reached] at ended
    exact ⟨_, _, rfl, Option.some.inj ended⟩
  | failed e j =>
    rw [reached] at ended
    exact ⟨_, _, rfl, Option.some.inj ended⟩

/-! ## The end of a run -/

/-- A refused flush is a fault at the instruction fetched last. -/
theorem flush_eq_error {e : Fault} (refused : m.flush.1 = .error e) :
    ∃ reason, e = m.fault (.output reason) := by
  unfold flush at refused
  split at refused
  · cases refused
    exact ⟨_, rfl⟩
  · split at refused
    · cases refused
      exact ⟨_, rfl⟩
    · cases refused

/-- A flush changes at most the outlets. -/
theorem flush_snd (m : Machine) : ∃ out diagnostics, m.flush.2 = { m with out, diagnostics } := by
  unfold flush
  split
  · exact ⟨_, _, rfl⟩
  · split <;> exact ⟨_, _, rfl⟩

/-- The machine after a flush of both outlets. -/
def flushed (m : Machine) : Machine :=
  { m with out := m.out.flush.2, diagnostics := m.diagnostics.flush.2 }

/-- A flush that is not refused goes to both outlets. -/
theorem flush_of_ok (granted : m.flush.1 = .ok ()) : m.flush = (.ok (), m.flushed) := by
  unfold flushed
  unfold flush at granted ⊢
  generalize m.out.flush = answer at granted ⊢
  obtain ⟨_ | reason, out⟩ := answer
  · generalize m.diagnostics.flush = answer' at granted ⊢
    obtain ⟨_ | reason, diagnostics⟩ := answer'
    · rfl
    · cases granted
  · cases granted

/-- The result of a run whose outlets are flushed. -/
theorem finish_of_flushed (granted : m.flush.1 = .ok ()) (ending : Except Fault Halt) :
    (m.finish ending).1 = ending.mapError .fault := by
  rw [finish, flush_of_ok granted]
  cases ending <;> rfl

/-- What is left of a run whose outlets are flushed. -/
theorem finish_snd_of_flushed (granted : m.flush.1 = .ok ()) (ending : Except Fault Halt) :
    (m.finish ending).2 = m.flushed ∨ ∃ e, (m.finish ending).2 = m.flushed.record e := by
  rw [finish, flush_of_ok granted]
  cases ending with
  | error e => exact .inl rfl
  | ok h => exact .inr ⟨_, rfl⟩

/-- The end of a run changes at most the outlets and the journal. -/
theorem finish_snd (m : Machine) (ending : Except Fault Halt) :
    ∃ out diagnostics journal, (m.finish ending).2 = { m with out, diagnostics, journal } := by
  obtain ⟨out, diagnostics, flushed⟩ := m.flush_snd
  unfold finish
  generalize m.flush = answer at flushed ⊢
  obtain ⟨result, k⟩ := answer
  obtain rfl : k = _ := flushed
  cases ending with
  | error e => exact ⟨_, _, _, rfl⟩
  | ok h => cases result <;> exact ⟨_, _, _, rfl⟩

/-- A run fails with the fault that ended it, or with a flush that is refused after
it has halted. -/
theorem finish_eq_error {ending : Except Fault Halt} {e : RunError}
    (failed : (m.finish ending).1 = .error e) :
    (∃ cause, ending = .error cause ∧ e = .fault cause) ∨
      ∃ h reason, ending = .ok h ∧ m.flush.1 = .error (m.fault (.output reason)) ∧
        e = .fault (m.fault (.output reason)) := by
  unfold finish at failed
  cases ending with
  | error cause =>
    cases failed
    exact .inl ⟨cause, rfl, rfl⟩
  | ok h =>
    cases flushed : m.flush.1 with
    | ok _ =>
      simp only [flushed] at failed
      cases failed
    | error refusal =>
      simp only [flushed] at failed
      cases failed
      obtain ⟨reason, rfl⟩ := flush_eq_error flushed
      exact .inr ⟨h, reason, rfl, rfl, rfl⟩

/-! ## One step -/

/-- The machine in which an instruction is executed, once it has been taken from the program. -/
def dispatch (m : Machine) (i : Instruction) : Machine :=
  { m.advance i with steps := m.steps + 1 }.record (.dispatched i)

theorem step_of_fetch?_none (past : m.fetch? = none) : m.step = .halted .finished m := by
  rw [step, past]

theorem step_of_unknown {i : Instruction} (fetched : m.fetch? = some i)
    (unknown : i.opcode? = none) :
    m.step = .next ((m.advance i).record (.skipped i.mnemonic.text i.order)) := by
  rw [step, fetched]
  simp only [unknown]

theorem step_of_known {i : Instruction} {op : Opcode} (fetched : m.fetch? = some i)
    (known : i.opcode? = some op) :
    m.step = (m.dispatch i).attempt (Operands.check op i) (m.dispatch i |>.execute op) := by
  rw [step, fetched]
  simp only [known]
  rfl

/-! ## Values -/

/-- Whether an operand has a value, and which, is a matter of the memory. -/
theorem symbol_eq_ok_congr {k : Machine} (same : k.memory = m.memory) {order : Nat} {op : Opcode}
    {x : Operand} {v : Value} : k.symbol order op x = .ok v ↔ m.symbol order op x = .ok v := by
  cases x with
  | place p => rw [symbol, symbol, same, mapError_eq_ok_iff, mapError_eq_ok_iff]
  | _ => rfl

/-! ## Assignments -/

end Machine

/-- The outcome of assigning a value to a variable of the memory: a variable that is there holds
the value afterwards, and one that is not there is a fault. -/
inductive Outcome.Assigns (m : Memory) (p : Place) (v : Value) : Outcome → Prop
  | held {c : Cell} {k : Machine} : m.read p = .ok c → m.write p v = (.ok (), k.memory) →
    k.memory.read p = .ok ⟨p.name, some v⟩ → Assigns m p v (.next k)
  | refused {e : MemoryError} {k : Machine} : m.read p = .error e → m.write p v = (.error e, m) →
    k.memory = m → Assigns m p v (.failed (k.memoryFault e) k)

namespace Machine

variable {m : Machine}

theorem store_assigns (m : Machine) (p : Place) (v : Value) :
    (m.store p v).Assigns m.memory p v := by
  unfold store
  cases found : m.memory.read p with
  | ok c =>
    obtain ⟨memory, written, held⟩ := Memory.exists_write found v
    rw [written]
    exact .held found written held
  | error e =>
    have refused := Memory.write_of_missing found v
    rw [refused]
    exact .refused found refused rfl

/-! ## The opcodes that look at a stack -/

theorem execute_ret_nil (empty : m.calls = []) (xs : Operands .ret) :
    m.execute .ret xs = .failed (m.fault .callStackEmpty) m := by
  simp only [execute, empty]

theorem execute_ret_cons {position : Nat} {calls : List Nat}
    (pushed : m.calls = position :: calls) (xs : Operands .ret) :
    m.execute .ret xs = .next { m with position, calls } := by
  simp only [execute, pushed]

theorem execute_pops_nil (empty : m.stack = []) (xs : Operands .pops) :
    m.execute .pops xs = .failed (m.fault .dataStackEmpty) m := by
  obtain ⟨order, p, ⟨⟩⟩ := xs
  simp only [execute, empty]

theorem execute_pops_cons {v : Value} {stack : List Value} (pushed : m.stack = v :: stack)
    (order : Nat) (p : Place) :
    m.execute .pops ⟨order, p, ()⟩ = { m with stack }.store p v := by
  simp only [execute, pushed]

/-! ## Reads -/

theorem readLine_line (m : Machine) : m.readLine.1 = m.input.next.1 := by
  simp only [readLine]
  split <;> rfl

theorem readLine_input (m : Machine) : m.readLine.2.input = m.input.next.2 := by
  simp only [readLine]
  split <;> rfl

theorem readLine_order (m : Machine) : m.readLine.2.order = m.order := by
  simp only [readLine]
  split <;> rfl

theorem readLine_memory (m : Machine) : m.readLine.2.memory = m.memory := by
  simp only [readLine]
  split <;> rfl

/-- A read of a readable type takes a line and stores its value; another read takes no line. -/
theorem read_eq (m : Machine) (p : Place) (name : String) :
    m.read p name =
      match (ValueType.ofName? name).bind m.input.next.1.value? with
      | some v => m.readLine.2.store p v
      | none => .failed (m.fault (.unreadableType name)) m := by
  rw [← readLine_line]
  unfold read
  cases ValueType.ofName? name with
  | none => rfl
  | some t => cases t <;> rfl

/-! ## Rules for the parts of an instruction -/

section Rules

variable {α : Type} {P : Machine → Prop} {Q : Fault → Prop}

theorem attempt_outcome {P : Outcome → Prop} {result : Except Fault α} {go : α → Outcome}
    (here : ∀ e, result = .error e → P (.failed e m)) (further : ∀ a, result = .ok a → P (go a)) :
    P (m.attempt result go) := by
  cases result with
  | ok a => exact further a rfl
  | error e => exact here e rfl

theorem access_outcome {P : Outcome → Prop} {result : Except MemoryError α} {go : α → Outcome}
    (here : ∀ e, result = .error e → P (.failed (m.memoryFault e) m))
    (further : ∀ a, result = .ok a → P (go a)) : P (m.access result go) := by
  cases result with
  | ok a => exact further a rfl
  | error e => exact here e rfl

theorem update_outcome {P : Outcome → Prop} {done : Except MemoryError Unit × Memory}
    (here : ∀ e k, done = (.error e, k) → P (.failed (m.memoryFault e) { m with memory := k }))
    (further : ∀ k, done = (.ok (), k) → P (.next { m with memory := k })) :
    P (m.update done) := by
  rcases done with ⟨e | ⟨⟩, k⟩
  · exact here e k rfl
  · exact further k rfl

theorem attempt_machine {result : Except Fault α} {go : α → Outcome} (here : P m)
    (further : ∀ a, result = .ok a → P (go a).machine) : P (m.attempt result go).machine :=
  attempt_outcome (P := fun o => P o.machine) (fun _ _ => here) further

theorem access_machine {result : Except MemoryError α} {go : α → Outcome} (here : P m)
    (further : ∀ a, result = .ok a → P (go a).machine) : P (m.access result go).machine :=
  access_outcome (P := fun o => P o.machine) (fun _ _ => here) further

/-- An operation on the memory that leaves it alone when it is refused either changes nothing but
the memory or nothing at all. -/
theorem update_machine {done : Except MemoryError Unit × Memory}
    (kept : ∀ {e k}, done = (.error e, k) → k = m.memory) (here : P m)
    (further : ∀ k, done = (.ok (), k) → P { m with memory := k }) :
    P (m.update done).machine := by
  refine update_outcome (P := fun o => P o.machine) (fun e k refused => ?_) further
  obtain rfl := kept refused
  exact here

theorem store_machine {p : Place} {v : Value} (here : P m)
    (written : ∀ k, m.memory.write p v = (.ok (), k) → P { m with memory := k }) :
    P (m.store p v).machine :=
  update_machine Memory.write_of_error here written

theorem attempt_fails {result : Except Fault α} {go : α → Outcome}
    (here : ∀ e, result = .error e → Q e) (further : ∀ a, result = .ok a → (go a).Fails Q) :
    (m.attempt result go).Fails Q :=
  attempt_outcome here further

theorem access_fails {result : Except MemoryError α} {go : α → Outcome}
    (here : ∀ e, Q (m.memoryFault e)) (further : ∀ a, (go a).Fails Q) :
    (m.access result go).Fails Q :=
  access_outcome (fun e _ => here e) fun a _ => further a

theorem update_fails {done : Except MemoryError Unit × Memory} (here : ∀ e, Q (m.memoryFault e)) :
    (m.update done).Fails Q :=
  update_outcome (fun e _ _ => here e) fun _ _ => trivial

theorem store_fails {p : Place} {v : Value} (here : ∀ e, Q (m.memoryFault e)) :
    (m.store p v).Fails Q :=
  update_fails here

theorem attempt_failsAt {result : Except Fault α} {go : α → Outcome}
    (here : ∀ e, result = .error e → P m) (further : ∀ a, result = .ok a → (go a).FailsAt P) :
    (m.attempt result go).FailsAt P :=
  attempt_outcome here further

theorem access_failsAt {result : Except MemoryError α} {go : α → Outcome}
    (here : ∀ e, result = .error e → P m) (further : ∀ a, result = .ok a → (go a).FailsAt P) :
    (m.access result go).FailsAt P :=
  access_outcome here further

theorem update_failsAt {done : Except MemoryError Unit × Memory}
    (kept : ∀ {e k}, done = (.error e, k) → k = m.memory)
    (here : ∀ e, done = (.error e, m.memory) → P m) : (m.update done).FailsAt P := by
  refine update_outcome (fun e k refused => ?_) fun _ _ => trivial
  obtain rfl := kept refused
  exact here e refused

theorem store_failsAt {p : Place} {v : Value}
    (here : ∀ e, m.memory.write p v = (.error e, m.memory) → P m) : (m.store p v).FailsAt P :=
  update_failsAt Memory.write_of_error here

end Rules

end Machine

end FrameCode
