import FrameCode.Fault
import FrameCode.Input
import FrameCode.Outlet

/-!
# Machine states

A machine holds a program with its label index, the memory, the two stacks, the position of the
next instruction, its input and its two outlets.  The journal lists what happened, the latest
event first; nothing the machine does depends on it.
-/

namespace FrameCode

/-- How a run ends without a failure. -/
inductive Halt where
  | finished
  | exit (code : Fin 10)
  deriving DecidableEq, Repr

namespace Halt

/-- The exit status of a run. -/
def status : Halt → Nat
  | finished => 0
  | exit code => code.val

/-- The end of a run as the journal shows it. -/
def print : Halt → String
  | finished => "Finished"
  | exit code => s!"Exit({code.val})"

end Halt

/-- What the journal records. -/
inductive Event where
  | redefined (redefinition : Labels.Redefinition)
  | started (instructions labels : Nat)
  | dispatched (instruction : Instruction)
  | skipped (mnemonic : String) (order : Nat)
  | readFailed (reason : String)
  | dumpRefused (reason : String)
  | finished (steps : Nat) (halt : Halt)
  deriving DecidableEq, Repr

/-- The state of a machine; the top of each stack comes first. -/
structure Machine where
  program : Program
  labels : Labels
  memory : Memory
  stack : List Value
  calls : List Nat
  /-- The position of the next instruction. -/
  position : Nat
  /-- The order number of the instruction fetched last. -/
  order : Nat
  /-- The number of instructions executed. -/
  steps : Nat
  input : Input
  out : Outlet
  diagnostics : Outlet
  journal : List Event

namespace Machine

/-- A machine for a program that has not run. -/
def new (program : Program) (input : Input) (out diagnostics : Outlet) : Machine where
  program := program
  labels := .empty
  memory := .empty
  stack := []
  calls := []
  position := 0
  order := 0
  steps := 0
  input := input
  out := out
  diagnostics := diagnostics
  journal := []

/-- The machine without what earlier runs left, apart from its input and its outlets. -/
def reset (m : Machine) : Machine :=
  { m with
    labels := .empty
    memory := .empty
    stack := []
    calls := []
    position := 0
    order := 0
    steps := 0
    journal := [] }

/-- A machine that was reset is one that has not run. -/
theorem reset_eq_new (m : Machine) : m.reset = new m.program m.input m.out m.diagnostics := rfl

/-- A fault at the instruction fetched last. -/
def fault (m : Machine) (cause : Cause) : Fault := ⟨m.order, cause⟩

/-- The machine with one more event in its journal. -/
def record (m : Machine) (e : Event) : Machine := { m with journal := e :: m.journal }

/-- The next instruction. -/
def fetch? (m : Machine) : Option Instruction := m.program.instructions[m.position]?

/-! ## Dump -/

/-- The state as a dump shows it, with the bottom of each stack first. -/
def dump (m : Machine) : String :=
  s!"BREAK at instruction {m.order} (position {m.position})\n"
    ++ s!"executed: {m.steps}\n"
    ++ m.memory.print
    ++ "data stack: [" ++ ", ".intercalate (m.stack.reverse.map Value.print) ++ "]\n"
    ++ "call stack: [" ++ ", ".intercalate (m.calls.reverse.map Nat.repr) ++ "]\n"
    ++ s!"labels: {m.labels.size}\n"

end Machine

end FrameCode
