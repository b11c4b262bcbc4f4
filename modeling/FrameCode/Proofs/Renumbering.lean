import FrameCode.Proofs.AlikeRuns
import FrameCode.Proofs.Correspondence
import FrameCode.Proofs.Ordering
import FrameCode.Proofs.Outlets
import Mathlib.Data.Nat.Basic
import Mathlib.Order.Monotone.Defs

/-!
# Renumbered programs

Only the relative order of the order numbers of a program matters.  If the instructions are listed
in another sequence and their numbers are replaced by others in the same order, then the program
in order has the same instructions at the same positions.  Its run takes the same steps: it
differs in the number that a fault is reported with and in the number that a dump begins with, and
in nothing else that the program or its user can see.
-/

namespace FrameCode

/-! ## New numbers -/

/-- The instruction with its order number under a map. -/
def Instruction.renumber (f : Nat → Nat) (i : Instruction) : Instruction :=
  { i with order := f i.order }

/-- The program with the order numbers under a map. -/
def Program.renumber (f : Nat → Nat) (p : Program) : Program :=
  ⟨p.instructions.map (Instruction.renumber f)⟩

namespace Program

variable {f : Nat → Nat} {p q s : Program}

theorem labelsFrom_renumber (f : Nat → Nat) (position : Nat) (is : List Instruction) :
    labelsFrom position (is.map (Instruction.renumber f)) = labelsFrom position is := by
  induction is generalizing position with
  | nil => rfl
  | cons i is ih =>
    rw [List.map_cons, labelsFrom, labelsFrom, ih]
    rfl

theorem build_renumber (f : Nat → Nat) (p : Program) :
    Labels.build (p.renumber f) = Labels.build p :=
  congrArg Labels.empty.registerAll (labelsFrom_renumber f 0 p.instructions)

/-- In any listing, a program with new numbers in the same order is put in the same order. -/
theorem ordered_renumber (ordered : p.ordered = .ok s)
    (increasing : StrictMonoOn f {n | ∃ i ∈ p.instructions, i.order = n})
    (positive : ∀ i ∈ p.instructions, 1 ≤ f i.order)
    (perm : q.instructions.Perm (p.renumber f).instructions) :
    q.ordered = .ok (s.renumber f) := by
  obtain ⟨rearranged, sorted, -⟩ := ordered_eq_ok_iff.1 ordered
  have listed {i : Instruction} (mem : i ∈ s.instructions) : i ∈ p.instructions :=
    rearranged.mem_iff.1 mem
  refine ordered_eq_ok_iff.2 ⟨(rearranged.map _).trans perm.symm, ?_, ?_⟩
  · refine List.pairwise_map.2 (sorted.imp_of_mem fun first second less => ?_)
    exact increasing ⟨_, listed first, rfl⟩ ⟨_, listed second, rfl⟩ less
  · refine List.forall_mem_map.2 fun i mem => ?_
    exact Nat.ne_of_gt (positive i (listed mem))

/-- Whether a program can be put in order does not depend on its listing. -/
theorem refused_of_perm {e : OrderError} (refused : p.ordered = .error e)
    (perm : q.instructions.Perm p.instructions) : ∃ e', q.ordered = .error e' := by
  cases again : q.ordered with
  | error e' => exact ⟨e', rfl⟩
  | ok t =>
    have ordered : p.ordered = .ok t := ordered_of_perm again perm.symm
    rw [refused] at ordered
    cases ordered

end Program

/-! ## The relation of the runs -/

/-- The notes are of the same opcode and have the same text, except that the number of the
instruction in a dump is under the map. -/
structure Note.Renumbered (f : Nat → Nat) (a b : Note) : Prop where
  opcode : b.opcode = a.opcode
  text : a.opcode ≠ .break → b.text = a.text
  dump : a.opcode = .break → ∃ n rest,
    a.text = s!"BREAK at instruction {n} (position " ++ rest ∧
      b.text = s!"BREAK at instruction {f n} (position " ++ rest

/-- The second machine runs the program of the first with new numbers, and agrees with it in all
but the numbers and the texts of dumps. -/
structure Machine.Renumbered (f : Nat → Nat) (m k : Machine) : Prop where
  program : k.program = m.program.renumber f
  labels : k.labels = m.labels
  memory : k.memory = m.memory
  stack : k.stack = m.stack
  calls : k.calls = m.calls
  position : k.position = m.position
  steps : k.steps = m.steps
  input : k.input = m.input
  out : k.out = m.out
  diagnostics : m.diagnostics.Paired k.diagnostics

theorem Outlet.coupled_paired : Outlet.Coupled Outlet.Paired := fun _ _ s paired =>
  ⟨(paired.write s s).1.symm, (paired.write s s).2⟩

namespace Machine

variable {f : Nat → Nat} {m k : Machine} {i : Instruction}

/-- Renumbered machines correspond, with the same positions. -/
theorem renumbered_iff : m.Renumbered f k ↔
    m.Corresponds id Outlet.Paired k ∧ k.program = m.program.renumber f ∧ k.labels = m.labels ∧
      k.steps = m.steps := by
  constructor
  · intro both
    refine ⟨?_, both.program, both.labels, both.steps⟩
    exact { both with
      labels := fun name => by rw [both.labels, Option.map_id, id]
      calls := both.calls.trans (List.map_id _).symm }
  · rintro ⟨both, program, labels, steps⟩
    exact { both with
      program := program
      labels := labels
      calls := both.calls.trans (List.map_id _)
      steps := steps }

/-! ## Dumps -/

/-- What a dump shows after the number of its instruction. -/
def dumpRest (m : Machine) : String :=
  s!"{m.position})\n"
    ++ s!"executed: {m.steps}\n"
    ++ m.memory.print
    ++ "data stack: [" ++ ", ".intercalate (m.stack.reverse.map Value.print) ++ "]\n"
    ++ "call stack: [" ++ ", ".intercalate (m.calls.reverse.map Nat.repr) ++ "]\n"
    ++ s!"labels: {m.labels.size}\n"

theorem dump_eq (m : Machine) :
    m.dump = s!"BREAK at instruction {m.order} (position " ++ m.dumpRest := by
  unfold dump dumpRest
  -- The equation is about the places of brackets; the parts could be unfolded to texts of
  -- their own.
  generalize m.memory.print = memory
  generalize ", ".intercalate (m.stack.reverse.map Value.print) = stack
  generalize ", ".intercalate (m.calls.reverse.map Nat.repr) = calls
  simp only [String.append_assoc]

/-! ## One step -/

theorem Renumbered.fetch? (both : m.Renumbered f k) :
    k.fetch? = m.fetch?.map (Instruction.renumber f) := by
  rw [Machine.fetch?, Machine.fetch?, both.program, both.position]
  exact List.getElem?_map

theorem Renumbered.dispatch (both : m.Renumbered f k) (i : Instruction) :
    (m.dispatch i).Renumbered f (k.dispatch (i.renumber f)) :=
  { both with
    position := congrArg (· + 1) both.position
    steps := congrArg (· + 1) both.steps }

/-- The dumps differ in the number they begin with. -/
theorem Renumbered.dump (both : m.Renumbered f k) (order : k.order = f m.order) :
    ∃ rest, m.dump = s!"BREAK at instruction {m.order} (position " ++ rest ∧
      k.dump = s!"BREAK at instruction {f m.order} (position " ++ rest := by
  refine ⟨m.dumpRest, m.dump_eq, ?_⟩
  have same : k.dumpRest = m.dumpRest := by
    simp only [dumpRest, both.position, both.steps, both.memory, both.stack,
      both.calls, both.labels]
  rw [k.dump_eq, order, same]

theorem Renumbered.writeDump (both : m.Renumbered f k) :
    m.writeDump.Renumbered f k.writeDump := by
  have written := both.diagnostics.write m.dump k.dump
  unfold Machine.writeDump
  generalize m.diagnostics.write m.dump = answer at written ⊢
  generalize k.diagnostics.write k.dump = answer' at written ⊢
  obtain ⟨refusal, o⟩ := answer
  obtain ⟨refusal', o'⟩ := answer'
  obtain ⟨rfl, paired⟩ : refusal = refusal' ∧ o.Paired o' := written
  cases refusal <;> exact { both with diagnostics := paired }

end Machine

/-- The outcomes are the same but for the number of a fault, and the machines are renumbered. -/
abbrev Outcome.Renumbered (f : Nat → Nat) : Outcome → Outcome → Prop :=
  Outcome.Rel f (Machine.Renumbered f)

namespace Machine

variable {f : Nat → Nat} {m k : Machine} {i : Instruction}

/-- The step at a dump, whose operands have passed their check. -/
theorem Renumbered.step_break (both : m.Renumbered f k) (here : m.fetch? = some i)
    (known : i.opcode? = some .break) {xs : Operands .break}
    (checked : Operands.check .break i = .ok xs) :
    Outcome.Renumbered f m.step k.step ∧ List.Forall₂ (Note.Renumbered f) m.noted k.noted := by
  have there : k.fetch? = some (i.renumber f) := both.fetch?.trans (congrArg _ here)
  have named : (i.renumber f).opcode? = some .break := known
  have checked' : Operands.check .break (i.renumber f) = .ok (xs.renumber f) := by
    have same : Operands.check .break (i.renumber f) = _ :=
      Operands.check_renumber (i := i) (f := f) rfl rfl
    rw [same, checked]
    rfl
  have dispatched := both.dispatch i
  rw [noted_eq here known, noted_eq there named, step_of_known here known,
    step_of_known there named, checked, checked', attempt_ok, attempt_ok]
  refine ⟨.next dispatched.writeDump, ?_⟩
  have added : List.Forall₂ (fun s s' => ∃ n rest,
      s = s!"BREAK at instruction {n} (position " ++ rest ∧
        s' = s!"BREAK at instruction {f n} (position " ++ rest)
      ((m.dispatch i).writeDump.diagnostics.since m.diagnostics)
      ((k.dispatch (i.renumber f)).writeDump.diagnostics.since k.diagnostics) := by
    rw [writeDump_diagnostics, writeDump_diagnostics]
    exact dispatched.diagnostics.since_write ⟨_, dispatched.dump rfl⟩
  refine List.forall₂_map_left_iff.2
    (List.forall₂_map_right_iff.2 (added.imp fun s s' dumps => ?_))
  exact ⟨rfl, fun other => absurd rfl other, fun _ => dumps⟩

/-- The step at an instruction that is no such dump. -/
theorem Renumbered.step_other (both : m.Renumbered f k) {op : Opcode} (here : m.fetch? = some i)
    (known : i.opcode? = some op) (other : op = .break → i.operands ≠ []) :
    Outcome.Renumbered f m.step k.step ∧ List.Forall₂ (Note.Renumbered f) m.noted k.noted := by
  have there : k.fetch? = some (i.renumber f) := both.fetch?.trans (congrArg _ here)
  have named : (i.renumber f).opcode? = some op := known
  have dispatched : (m.dispatch i).InStep f id Outlet.Paired (k.dispatch (i.renumber f)) :=
    { (renumbered_iff.1 (both.dispatch i)).1 with order := rfl }
  obtain ⟨outcomes, noted⟩ := InStep.step_dispatched Outlet.coupled_paired here there known named
    rfl dispatched other
  obtain ⟨program, labels, -⟩ := step_fetched here
  obtain ⟨program', labels', -⟩ := step_fetched there
  have renumbered (agree : m.step.machine.InStep f id Outlet.Paired k.step.machine) :
      m.step.machine.Renumbered f k.step.machine := by
    refine renumbered_iff.2 ⟨agree.toCorresponds, ?_, ?_, ?_⟩
    · rw [program, program', both.program]
    · rw [labels, labels', both.labels]
    · rw [step_counted here known, step_counted there named, both.steps]
  refine ⟨outcomes.imp_machine renumbered, ?_⟩
  rw [noted]
  refine List.forall₂_same.2 fun a mem => ⟨rfl, fun _ => rfl, fun opcode => ?_⟩
  -- A note of a dump would be one of a `BREAK` that has passed the check, so without operands.
  obtain ⟨same, xs, checked⟩ := passed_of_mem_noted here known mem
  obtain rfl : op = .break := same.symm.trans opcode
  exact absurd (Operands.toList_of_check checked) (other rfl)

/-- One step of renumbered machines, and what it adds to the diagnostics. -/
theorem Renumbered.step (both : m.Renumbered f k) :
    Outcome.Renumbered f m.step k.step ∧ List.Forall₂ (Note.Renumbered f) m.noted k.noted := by
  cases here : m.fetch? with
  | none =>
    have there : k.fetch? = none := both.fetch?.trans (congrArg _ here)
    rw [step_of_fetch?_none here, step_of_fetch?_none there, noted, noted, here, there]
    exact ⟨.halted _ both, .nil⟩
  | some i =>
    cases known : i.opcode? with
    | none =>
      have there : k.fetch? = some (i.renumber f) := both.fetch?.trans (congrArg _ here)
      have unnamed : (i.renumber f).opcode? = none := known
      rw [step_of_unknown here known, step_of_unknown there unnamed, noted, noted, here, there,
        Option.bind_some, Option.bind_some, known, unnamed]
      exact ⟨.next { both with position := congrArg (· + 1) both.position }, .nil⟩
    | some op =>
      by_cases dumps : op = .break ∧ i.operands = []
      · obtain ⟨rfl, empty⟩ := dumps
        have checked : Operands.check .break i = .ok ⟨i.order, ()⟩ :=
          Operands.check_of_toList empty
        exact both.step_break here known checked
      · exact both.step_other here known fun same empty => dumps ⟨same, empty⟩

/-! ## Runs -/

/-- The outcomes of renumbered machines after any number of steps. -/
theorem Renumbered.after (both : m.Renumbered f k) (n : Nat) :
    Outcome.Renumbered f (m.after n) (k.after n) :=
  Outcome.Rel.after (fun _ _ both => (Renumbered.step both).1) both n

theorem Renumbered.flushed (m k : Machine) (both : m.Renumbered f k) :
    m.flushed.Renumbered f k.flushed :=
  { both with
    out := by rw [Machine.flushed, Machine.flushed, both.out]
    diagnostics := both.diagnostics.flush.2 }

/-- The notes of renumbered machines after any number of steps. -/
theorem Renumbered.notes (both : m.Renumbered f k) (n : Nat) :
    List.Forall₂ (Note.Renumbered f) (m.notes n) (k.notes n) := by
  induction n with
  | zero => exact .nil
  | succ n ih =>
    unfold Machine.notes
    have outcomes := both.after n
    generalize m.after n = o at outcomes ⊢
    generalize k.after n = o' at outcomes ⊢
    cases outcomes with
    | next both => exact List.rel_append both.step.2 ih
    | halted => exact ih
    | failed => exact ih

theorem renumbered_ready (p q s : Program) (f : Nat → Nat) (input : Input)
    (out diagnostics : Outlet) :
    ((new p input out diagnostics).ready s).Renumbered f
      ((new q input out diagnostics).ready (s.renumber f)) where
  program := rfl
  labels := congrArg Prod.fst (Program.build_renumber f s)
  memory := rfl
  stack := rfl
  calls := rfl
  position := rfl
  steps := rfl
  input := rfl
  out := rfl
  diagnostics := .refl diagnostics

/-- **Only the relative order of the order numbers matters.**  A program that can be put in
order runs as every listing of it does whose numbers were replaced by others in the same order:
with the same halt, or with the same fault at the number that replaced the one of the
instruction.  The outlets get the same texts, apart from the numbers in dumps, and the states
that are left are the same.  A program that cannot be put in order is refused in every listing,
with the exit status 32. -/
theorem run_renumbered (p q : Program) :
    (∀ (s : Program) (f : Nat → Nat), p.ordered = .ok s →
      StrictMonoOn f {n | ∃ i ∈ p.instructions, i.order = n} →
      (∀ i ∈ p.instructions, 1 ≤ f i.order) →
      q.instructions.Perm (p.renumber f).instructions →
      ∀ (input : Input) (out diagnostics : Outlet), (∀ n l, out.refusesFlush n l = none) →
        (∀ n l, diagnostics.refusesFlush n l = none) →
        let m := new p input out diagnostics
        let k := new q input out diagnostics
        q.ordered = .ok (s.renumber f) ∧ ∀ bound,
          Option.Rel (fun r r' => r'.1 = r.1.mapError (.renumber f) ∧ r.2.Renumbered f r'.2)
            (m.run bound) (k.run bound) ∧
          List.Forall₂ (Note.Renumbered f) ((m.ready s).notes bound)
            ((k.ready (s.renumber f)).notes bound)) ∧
    ∀ e, p.ordered = .error e → q.instructions.Perm p.instructions →
      ∃ e', q.ordered = .error e' ∧ RunError.status (.unordered e') = 32 ∧
        ∀ input out diagnostics bound, ∃ k,
          (new q input out diagnostics).run bound = some (.error (.unordered e'), k) := by
  constructor
  · intro s f ordered increasing positive perm input out diagnostics flushesOut
      flushesDiagnostics m k
    have ordered' : q.ordered = .ok (s.renumber f) :=
      Program.ordered_renumber ordered increasing positive perm
    have both := renumbered_ready p q s f input out diagnostics
    refine ⟨ordered', fun bound => ⟨?_, both.notes bound⟩⟩
    rw [run_eq_result? ordered, run_eq_result? ordered']
    exact (both.after bound).result? (fun _ _ _ both => { both with })
      (fun _ _ _ both => { both with })
      Renumbered.flushed (flush_after flushesOut flushesDiagnostics bound)
      (flush_after flushesOut flushesDiagnostics bound)
  · intro e refused perm
    obtain ⟨e', refused'⟩ := Program.refused_of_perm refused perm
    refine ⟨e', refused', ?_, fun _ _ _ bound => ⟨_, run_of_refused refused' bound⟩⟩
    cases e' <;> rfl

/-- A dump and a return without a call, listed and numbered in two ways, and a program with a
number that occurs twice. -/
theorem run_renumbered_return :
    let i (op : Opcode) (xs : List Operand) (n : Nat) : Instruction := ⟨.known op, xs, n⟩
    let one : Operand := .literal (.int 1)
    let p : Program := ⟨[i .ret [] 40, i .break [] 20, i .dprint [one] 30, i .pushs [one] 7]⟩
    let q : Program := ⟨[i .pushs [one] 1, i .dprint [one] 3, i .ret [] 100, i .break [] 2]⟩
    let f (n : Nat) : Nat := if n = 7 then 1 else if n = 20 then 2 else if n = 30 then 3 else 100
    let m := new p (.ofText "") .reliable .reliable
    let k := new q (.ofText "") .reliable .reliable
    (∃ s, p.ordered = .ok s ∧ q.ordered = .ok (s.renumber f) ∧
      (m.run 9).map (·.1) = some (.error (.fault ⟨40, .callStackEmpty⟩)) ∧ ∀ bound,
      Option.Rel (fun r r' => r'.1 = r.1.mapError (.renumber f) ∧ r.2.Renumbered f r'.2)
        (m.run bound) (k.run bound) ∧
      List.Forall₂ (Note.Renumbered f) ((m.ready s).notes bound)
        ((k.ready (s.renumber f)).notes bound)) ∧
    let bad : Program := ⟨[i .break [] 2, i .ret [] 2, i .break [] 0]⟩
    let worse : Program := ⟨[i .break [] 0, i .break [] 2, i .ret [] 2]⟩
    bad.ordered = .error (.duplicate 2) ∧ ∃ e', worse.ordered = .error e' ∧
      RunError.status (.unordered e') = 32 ∧ ∀ input out diagnostics bound, ∃ k,
        (new worse input out diagnostics).run bound = some (.error (.unordered e'), k) := by
  intro i one p q f m k
  constructor
  · obtain ⟨s, ordered⟩ : ∃ s, p.ordered = .ok s := ⟨_, rfl⟩
    have increasing : StrictMonoOn f {n | ∃ i ∈ p.instructions, i.order = n} := by
      rintro _ ⟨i, first, rfl⟩ _ ⟨j, second, rfl⟩
      revert i j
      decide
    obtain ⟨ordered', alike⟩ :=
      (run_renumbered p q).1 s f ordered increasing (by decide) (by decide)
      (.ofText "") .reliable .reliable (fun _ _ => rfl) fun _ _ => rfl
    exact ⟨s, ordered, ordered', by decide, alike⟩
  · intro bad worse
    have refused : bad.ordered = .error (.duplicate 2) := rfl
    exact ⟨refused, (run_renumbered bad worse).2 _ refused (by decide)⟩

end Machine

end FrameCode
