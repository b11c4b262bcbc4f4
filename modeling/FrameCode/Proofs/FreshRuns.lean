import FrameCode.Proofs.Footprint
import FrameCode.Proofs.Ordering
import FrameCode.Proofs.Results
import Mathlib.Logic.Relation

/-!
# Fresh runs

A machine can run its program more than once.  `run_eq_run_new` says that what the earlier runs
have left in it makes no difference, whether they have finished, exited or failed, and at
whatever instruction: the next run is the run of a new machine, on the input and the outlets as
they are now.

What a run keeps of the machine is its program, which it has put in order, its input and its
outlets.  A program in order is its own order, so the next run starts with the program that the
first one did.
-/

namespace FrameCode.Machine

variable {m k : Machine} {p : Program}

/-! ## What is left of a program -/

/-- The program of the machine is the given one, as it was listed or in order. -/
def Holds (m : Machine) (p : Program) : Prop := m.program = p ∨ p.ordered = .ok m.program

theorem Holds.ordered_eq (holds : m.Holds p) : m.program.ordered = p.ordered := by
  rcases holds with listed | ordered
  · rw [listed]
  · rw [ordered, Program.ordered_of_ordered ordered]

/-- What a machine holds when it is ready is settled by the program in order, the input and the
outlets. -/
theorem ready_eq_new_ready (m : Machine) (p q : Program) :
    m.ready q = (new p m.input m.out m.diagnostics).ready q := rfl

theorem Holds.start_eq_new (holds : m.Holds p) :
    m.start = (new p m.input m.out m.diagnostics).start := by
  rw [start_eq, start_eq, holds.ordered_eq]
  exact congrArg (p.ordered.map ·) (funext (ready_eq_new_ready m p))

/-- A program that cannot be put in order stays as it was listed. -/
theorem Holds.reset_eq_new (holds : m.Holds p) {e : OrderError} (refused : p.ordered = .error e) :
    m.reset = new p m.input m.out m.diagnostics := by
  rcases holds with listed | ordered
  · rw [Machine.reset_eq_new, listed]
  · rw [refused] at ordered
    cases ordered

theorem Holds.run_eq_new (holds : m.Holds p) (bound : Nat) :
    m.run bound = (new p m.input m.out m.diagnostics).run bound := by
  unfold run
  rw [← holds.start_eq_new]
  cases started : m.start with
  | ok s => rfl
  | error e =>
    rw [start_eq, map_eq_error_iff, holds.ordered_eq] at started
    rw [holds.reset_eq_new started]
    rfl

/-! ## Earlier runs -/

/-- A run of the first machine ends, whatever its result, and leaves the second. -/
def Leaves (m k : Machine) : Prop := ∃ bound result, m.run bound = some (result, k)

theorem finish_program (m : Machine) (ending : Except Fault Halt) :
    (m.finish ending).2.program = m.program := by
  obtain ⟨out, diagnostics, journal, left⟩ := m.finish_snd ending
  rw [left]

/-- What a run leaves holds the same program. -/
theorem Holds.of_leaves (holds : m.Holds p) (left : m.Leaves k) : k.Holds p := by
  obtain ⟨bound, result, ended⟩ := left
  cases ordered : m.program.ordered with
  | ok q =>
    obtain ⟨ending, last, reached, finished⟩ := run_eq_some ordered ended
    have kept := (after_program (m.ready q) bound).1
    rw [Outcome.machine_of_ending? reached] at kept
    refine .inr ?_
    rw [← holds.ordered_eq, ordered, ← show (last.finish ending).2 = k by rw [finished],
      finish_program, kept]
    rfl
  | error e =>
    rw [run_of_refused ordered] at ended
    cases ended
    exact holds

/-- **Every run starts fresh.**  After any number of runs of a machine, with any endings, its next
run is the run of a new machine for the original program, with the input and the outlets as they
are then.  The result and the whole state that is left agree, at any bound on the steps. -/
theorem run_eq_run_new {input : Input} {out diagnostics : Outlet}
    (earlier : Relation.ReflTransGen Leaves (new p input out diagnostics) k) (bound : Nat) :
    k.run bound = (new p k.input k.out k.diagnostics).run bound := by
  have holds : k.Holds p := by
    induction earlier with
    | refl => exact .inl rfl
    | tail _ left ih => exact ih.of_leaves left
  exact holds.run_eq_new bound

/-- The first run of a program that is listed out of order fails for a write that is refused, with
a value on the stack and a variable defined, and the second starts fresh on the next line. -/
theorem run_eq_run_new_refused :
    let x : Place := ⟨.global, "x"⟩
    let p : Program := ⟨[⟨.known .write, [.place x], 40⟩,
        ⟨.known .pushs, [.literal (.int 5)], 20⟩,
      ⟨.known .defvar, [.place x], 10⟩, ⟨.known .read, [.place x, .type "int"], 30⟩]⟩
    let out : Outlet := ⟨fun n => if n = 0 then some "closed" else none,
      fun _ _ => none, 0, 0, []⟩
    ∃ k, (new p (.ofText "7\n8\n") out .reliable).Leaves k ∧
      k.stack = [.int 5] ∧ k.program ≠ p ∧ k.input = .ofText "8\n" ∧
      (k.run 5).map (fun r => (r.1, r.2.out.taken)) = some (.ok .finished, ["8"]) ∧
      ∀ bound, k.run bound = (new p k.input k.out k.diagnostics).run bound := by
  intro x p out
  obtain ⟨k, left, again⟩ : ∃ k, (new p (.ofText "7\n8\n") out .reliable).Leaves k ∧
      (k.stack = [.int 5] ∧ k.program ≠ p ∧ k.input = .ofText "8\n" ∧
        (k.run 5).map (fun r => (r.1, r.2.out.taken)) = some (.ok .finished, ["8"])) :=
    ⟨_, ⟨5, _, rfl⟩, rfl, by decide, by decide, by decide⟩
  obtain ⟨stack, program, input, second⟩ := again
  exact ⟨k, left, stack, program, input, second, run_eq_run_new (.single left)⟩

end FrameCode.Machine
