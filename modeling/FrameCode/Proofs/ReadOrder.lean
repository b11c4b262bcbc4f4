import FrameCode.Proofs.CheckedOperands
import FrameCode.Proofs.Footprint
import FrameCode.Proofs.InputLines
import FrameCode.Proofs.Results

/-!
# Order of reads

`reads_take_lines` says that the reads of a machine take the lines of its input one by one: each
of them gets the line with its own number, counted over all runs of the machine, and no other
instruction takes a line.

`Machine.reads` counts the reads of a run.  The invariant is that as many lines are gone from the
input; a step keeps it, since a read takes one line whatever its type is and whether its value
can be stored.
-/

namespace FrameCode

namespace Machine

/-- The variable and the type of the read that the next step executes.  A read whose type cannot
be read does not count as one. -/
def reading? (m : Machine) : Option (Place × ValueType) :=
  match m.fetch? with
  | none => none
  | some i =>
    match i.opcode?, i.operands with
    | some .read, [.place p, .type name] =>
      ((ValueType.ofName? name).filter ValueType.readable).map (p, ·)
    | _, _ => none

end Machine

/-- The number of lines that the next step takes. -/
def Outcome.reads : Outcome → Nat
  | next m => if m.reading?.isSome then 1 else 0
  | halted _ _ => 0
  | failed _ _ => 0

namespace Machine

variable {m k r s : Machine} {p : Place} {t : ValueType} {bound : Nat}

/-- The number of reads in a number of steps. -/
def reads (m : Machine) : Nat → Nat
  | 0 => 0
  | n + 1 => m.reads n + (m.after n).reads

/-- The number of reads in a run.  There are none if the program has no order. -/
def readsInRun (m : Machine) (bound : Nat) : Nat :=
  match m.start with
  | .error _ => 0
  | .ok s => s.reads bound

/-- A machine after some runs, whatever their results, and the number of reads in all of them. -/
inductive Ran (m : Machine) : Nat → Machine → Prop
  | unused : Ran m 0 m
  | again {count bound : Nat} {result : Except RunError Halt} {k s : Machine} :
      Ran m count k → k.run bound = some (result, s) → Ran m (count + k.readsInRun bound) s

/-! ## What a step takes -/

/-- A read takes the first line of the input and assigns its value. -/
theorem step_of_reading (reading : m.reading? = some (p, t)) :
    ∃ i v, m.input.next.1.value? t = some v ∧
      m.step = (m.dispatch i).readLine.2.store p v := by
  unfold reading? at reading
  split at reading
  · cases reading
  · next i fetched =>
    split at reading
    · next q name known operands =>
      obtain ⟨type, named, eq⟩ := Option.map_eq_some_iff.1 reading
      obtain ⟨rfl, rfl⟩ := Prod.mk.inj eq
      obtain ⟨found, readable⟩ := Option.filter_eq_some_iff.1 named
      obtain ⟨v, valued⟩ := Option.isSome_iff_exists.1
        ((Line.isSome_value? m.input.next.1 type).trans readable)
      have checked : Operands.check .read i = .ok ⟨i.order, q, name, ()⟩ :=
        Operands.check_of_toList operands
      refine ⟨i, v, valued, ?_⟩
      have here : (ValueType.ofName? name).bind (m.dispatch i).input.next.1.value? = some v := by
        rw [found]
        exact valued
      rw [step_of_known fetched known, checked]
      show (m.dispatch i).read q name = _
      rw [read_eq, here]
    · cases reading

theorem assigns_of_step {i : Instruction} {v : Value}
    (stored : m.step = (m.dispatch i).readLine.2.store p v) : m.step.Assigns m.memory p v := by
  have assigns := store_assigns (m.dispatch i).readLine.2 p v
  rwa [readLine_memory, ← stored] at assigns

/-- The input after a read is what is left of it after one line. -/
theorem step_input_of_reading (reading : m.reading? = some (p, t)) :
    m.step.machine.input = m.input.next.2 := by
  obtain ⟨i, v, -, stored⟩ := step_of_reading reading
  rw [stored]
  exact store_machine (P := fun k => k.input = m.input.next.2) (readLine_input (m.dispatch i))
    fun _ _ => readLine_input (m.dispatch i)

theorem input_not_mem_changes {op : Opcode} (other : op ≠ .read) : .input ∉ op.changes := by
  cases op <;> first | exact absurd rfl other | decide

/-- An instruction that is no read of a readable type takes nothing from the input. -/
theorem step_input_of_not_reading (idle : m.reading? = none) :
    m.step.machine.input = m.input := by
  cases fetched : m.fetch? with
  | none =>
    rw [step_of_fetch?_none fetched]
    rfl
  | some i =>
    cases known : i.opcode? with
    | none =>
      rw [step_of_unknown fetched known]
      rfl
    | some op =>
      rw [step_of_known fetched known]
      refine attempt_machine (P := fun k => k.input = m.input) rfl fun xs checked => ?_
      by_cases same : op = .read
      · subst same
        obtain ⟨order, q, name, ⟨⟩⟩ := xs
        have operands : i.operands = [.place q, .type name] := Operands.toList_of_check checked
        simp only [reading?, fetched, known, operands, Option.map_eq_none_iff] at idle
        have unreadable := (Line.bind_value?_eq_none_iff (m.dispatch i).input.next.1).2 idle
        show ((m.dispatch i).read q name).machine.input = m.input
        rw [read_eq, unreadable]
        rfl
      · exact (execute_sameOutside (m.dispatch i) op xs).input (input_not_mem_changes same)

/-! ## What a run takes -/

/-- As many lines are gone from the input as were read. -/
theorem contents_resume (o : Outcome) :
    Input.contents o.resume.machine.input.rest =
      (Input.contents o.machine.input.rest).drop o.reads := by
  cases o with
  | halted h m | failed e m => rfl
  | next m =>
    show Input.contents m.step.machine.input.rest =
      (Input.contents m.input.rest).drop (if m.reading?.isSome then 1 else 0)
    cases reading : m.reading? with
    | none => rw [step_input_of_not_reading reading]; rfl
    | some target =>
      rw [step_input_of_reading reading, m.input.next_eq.2]
      exact List.drop_one.symm

theorem contents_after (m : Machine) (n : Nat) :
    Input.contents (m.after n).machine.input.rest =
      (Input.contents m.input.rest).drop (m.reads n) := by
  induction n with
  | zero => rfl
  | succ n ih =>
    have step := contents_resume (m.after n)
    rw [ih, List.drop_drop] at step
    exact step

/-- The start of a run takes nothing from the input. -/
theorem input_of_start (started : m.start = .ok s) : s.input = m.input := by
  rw [start_eq] at started
  obtain ⟨q, -, rfl⟩ := map_eq_ok_iff.1 started
  rfl

/-- Neither does its end. -/
theorem finish_input (m : Machine) (ending : Except Fault Halt) :
    (m.finish ending).2.input = m.input := by
  obtain ⟨out, diagnostics, journal, left⟩ := m.finish_snd ending
  rw [left]

theorem contents_run {result : Except RunError Halt} (ended : m.run bound = some (result, k)) :
    Input.contents k.input.rest = (Input.contents m.input.rest).drop (m.readsInRun bound) := by
  cases ordered : m.program.ordered with
  | error e =>
    rw [run_of_refused ordered] at ended
    cases ended
    rw [readsInRun, start_of_refused ordered]
    rfl
  | ok q =>
    obtain ⟨ending, left, reached, finished⟩ := run_eq_some ordered ended
    have now := contents_after (m.ready q) bound
    rw [Outcome.machine_of_ending? reached, ← finish_input left ending, finished] at now
    rw [readsInRun, start_of_ordered ordered]
    exact now

/-- After any number of runs, as many lines are gone as there were reads in them. -/
theorem Ran.contents_eq {count : Nat} (ran : m.Ran count k) :
    Input.contents k.input.rest = (Input.contents m.input.rest).drop count := by
  induction ran with
  | unused => rfl
  | again _ ended ih => rw [contents_run ended, ih, List.drop_drop]

/-- **Each read takes the next line.**  However often a machine has run, a read of a readable type
gets the value of the line that has as many lines before it as there were reads before this one,
in this run and in all earlier ones, and assigns it: the variable holds it afterwards, if it is
there.  Past the last line the read gets the default value of its type.  No other instruction
takes anything from the input. -/
theorem reads_take_lines {count n : Nat} (ran : m.Ran count k) (started : k.start = .ok s)
    (reached : s.after n = .next r) :
    (∀ p t, r.reading? = some (p, t) →
      ∃ v, Input.Yields (Input.contents m.input.rest)[count + s.reads n]? t v ∧
        r.step.Assigns r.memory p v) ∧
      (r.reading? = none → r.step.machine.input = r.input) := by
  refine ⟨fun p t reading => ?_, step_input_of_not_reading⟩
  obtain ⟨i, v, valued, stored⟩ := step_of_reading reading
  have left : Input.contents r.input.rest =
      (Input.contents m.input.rest).drop (count + s.reads n) := by
    have now := contents_after s n
    rw [reached, input_of_start started, ran.contents_eq, List.drop_drop] at now
    exact now
  have yields := Input.yields_of_value? valued
  rw [left, List.head?_drop] at yields
  exact ⟨v, yields, assigns_of_step stored⟩

/-- The first run reads the line `7`, which a carriage return ends, and one that is not UTF-8.
The second run reads the line `abc`, which nothing ends, as an integer. -/
theorem reads_take_lines_twice :
    let x : Place := ⟨.global, "x"⟩
    let p : Program := ⟨[⟨.known .defvar, [.place x], 1⟩,
        ⟨.known .read, [.place x, .type "int"], 2⟩,
      ⟨.known .read, [.place x, .type "string"], 3⟩]⟩
    let m := new p ⟨[55, 13, 10, 255, 10, 97, 98, 99]⟩ .reliable .reliable
    ∃ k s r v, m.Ran 2 k ∧ k.start = .ok s ∧ s.after 1 = .next r ∧ r.reading? = some (x, .int) ∧
      Input.Yields (some [97, 98, 99]) .int v ∧ r.step.Assigns r.memory x v := by
  intro x p m
  obtain ⟨result, k, s, r, ended, started, reached, reading, unread⟩ : ∃ result k s r,
      m.run 4 = some (result, k) ∧ k.start = .ok s ∧ s.after 1 = .next r ∧
        r.reading? = some (x, .int) ∧ s.reads 1 = 0 := ⟨_, _, _, _, rfl, rfl, rfl, rfl, rfl⟩
  have counted : 0 + m.readsInRun 4 = 2 := rfl
  have ran : m.Ran (0 + m.readsInRun 4) k := .again .unused ended
  rw [counted] at ran
  obtain ⟨v, yields, assigns⟩ := (reads_take_lines ran started reached).1 x .int reading
  have lines : Input.contents m.input.rest = [[55], [255], [97, 98, 99]] := by decide
  rw [unread, lines] at yields
  exact ⟨k, s, r, v, ran, started, reached, reading, yields, assigns⟩

end Machine

end FrameCode
