import FrameCode.Machine.Step

/-!
# Runs

A run puts the program in order, builds its label index and steps until the run ends; then it
flushes both outlets, whether the run failed or not.  A failure of the run comes before a failure
of the flush.

Not every program ends, so `Machine.loop` and `Machine.run` take a bound on the number of steps
and answer `none` when it is used up.  A larger bound never changes an answer.
-/

namespace FrameCode.Machine

/-- Steps until the run ends, at most `bound` times. -/
def loop : Nat → Machine → Option (Except Fault Halt × Machine)
  | 0, _ => none
  | bound + 1, m =>
    match m.step with
    | .next m => loop bound m
    | .halted h m => some (.ok h, m)
    | .failed e m => some (.error e, m)

/-- The machine ready to run: nothing left from earlier runs, the program in order, its labels
indexed.  Without an order, the program stays as it is. -/
def start (m : Machine) : Except OrderError Machine :=
  match m.program.ordered with
  | .error e => .error e
  | .ok program =>
    let (labels, redefinitions) := Labels.build program
    let journal := (redefinitions.map Event.redefined).reverse
    .ok ({ m.reset with program, labels, journal }.record
      (.started program.instructions.length labels.size))

/-- Flushes the output and then, unless that was refused, the diagnostics. -/
def flush (m : Machine) : Except Fault Unit × Machine :=
  match m.out.flush with
  | (some reason, out) => (.error (m.fault (.output reason)), { m with out })
  | (none, out) =>
    match m.diagnostics.flush with
    | (some reason, diagnostics) =>
      (.error (m.fault (.output reason)), { m with out, diagnostics })
    | (none, diagnostics) => (.ok (), { m with out, diagnostics })

/-- Flushes the outlets at the end of a run, and gives the result of the whole. -/
def finish (result : Except Fault Halt) (m : Machine) : Except RunError Halt × Machine :=
  let (flushed, m) := m.flush
  match result, flushed with
  | .error e, _ => (.error (.fault e), m)
  | .ok _, .error e => (.error (.fault e), m)
  | .ok h, .ok () => (.ok h, m.record (.finished m.steps h))

/-- Runs the program of a machine from its start, with a bound on the number of steps. -/
def run (bound : Nat) (m : Machine) : Option (Except RunError Halt × Machine) :=
  match m.start with
  | .error e => some (.error (.unordered e), m.reset)
  | .ok m => (loop bound m).map fun (result, m) => m.finish result

theorem loop_add {bound : Nat} {m : Machine} {result : Except Fault Halt × Machine}
    (ended : loop bound m = some result) (more : Nat) : loop (bound + more) m = some result := by
  induction bound generalizing m with
  | zero => simp [loop] at ended
  | succ bound ih =>
    rw [Nat.succ_add]
    unfold loop at ended ⊢
    split at ended
    · exact ih ended
    · exact ended
    · exact ended

end FrameCode.Machine
