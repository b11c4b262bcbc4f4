import FrameCode.Instruction

/-!
# Programs

A program is a list of instructions, in any order; their order numbers say in which order they
run.  `Program.ordered` sorts them and refuses a number that is zero or occurs twice.  Numbers may
have gaps.

`Program.labels` lists the labels that the instructions define, each with the position after its
definition.
-/

namespace FrameCode

/-- A list of instructions. -/
structure Program where
  instructions : List Instruction
  deriving DecidableEq, Repr

/-- Why the instructions of a program have no order. -/
inductive OrderError where
  | zero
  | duplicate (order : Nat)
  deriving DecidableEq, Repr

namespace OrderError

/-- The wording of an error. -/
def message : OrderError → String
  | zero => "invalid instruction order 0 (must be at least 1)"
  | duplicate n => s!"duplicate instruction order {n}"

/-- The exit status of an error. -/
def status : OrderError → Nat
  | zero => 32
  | duplicate _ => 32

end OrderError

namespace Program

/-- Equality of programs, with string literals compared by their characters. -/
def same (p q : Program) : Bool :=
  p.instructions.length == q.instructions.length
    && (p.instructions.zip q.instructions).all fun (i, j) => i.same j

/-! ## Order -/

/-- The first order number, in listing order, that is zero or among the numbers before it. -/
def orderFault? (seen : List Nat) : List Instruction → Option OrderError
  | [] => none
  | i :: rest =>
    if i.order = 0 then some .zero
    else if seen.contains i.order then some (.duplicate i.order)
    else orderFault? (i.order :: seen) rest

/-- Puts an instruction before the first one with a number that is not smaller. -/
def insertOrdered (i : Instruction) : List Instruction → List Instruction
  | [] => [i]
  | j :: rest => if i.order ≤ j.order then i :: j :: rest else j :: insertOrdered i rest

/-- The instructions by increasing order number. -/
def sort (is : List Instruction) : List Instruction := is.foldr insertOrdered []

/-- The program with its instructions in order. -/
def ordered (p : Program) : Except OrderError Program :=
  match orderFault? [] p.instructions with
  | some e => .error e
  | none => .ok ⟨sort p.instructions⟩

/-! ## Labels -/

/-- The labels defined from a position on, each with the position after its definition. -/
def labelsFrom (position : Nat) : List Instruction → List (String × Nat)
  | [] => []
  | i :: rest =>
    match i.definedLabel? with
    | some name => (name, position + 1) :: labelsFrom (position + 1) rest
    | none => labelsFrom (position + 1) rest

/-- The labels a program defines, each with the position after its definition. -/
def labels (p : Program) : List (String × Nat) := labelsFrom 0 p.instructions

end Program

end FrameCode
