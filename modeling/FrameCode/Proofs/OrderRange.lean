import FrameCode.Proofs.Blame
import FrameCode.Proofs.StructuralFaults
import FrameCode.Xml.Program

/-!
# The range of order numbers

Order numbers have 32 bits.  A document cannot hold a greater one.  In source text instructions
are counted, so the numbers are in range just if there are at most 2³² - 1 instructions.

To put a program in order changes none of its numbers.  The invariant of a run is that the machine
holds a number in range, and `fault_order_lt_of_run` says that its report names one.
-/

namespace FrameCode

/-- The order numbers of the program have 32 bits. -/
def Program.InRange (p : Program) : Prop := ∀ i ∈ p.instructions, i.order < Instruction.orderLimit

theorem Instruction.zero_lt_orderLimit : 0 < orderLimit := by decide

/-! ## Documents -/

theorem Numeral.lt_of_natural? {limit n : Nat} {cs : List Char}
    (read : natural? limit cs = some n) : n < limit := by
  simp only [natural?, Option.ite_none_right_eq_some, Bool.and_eq_true, decide_eq_true_eq,
    Option.some.injEq] at read
  obtain ⟨⟨-, below⟩, rfl⟩ := read
  exact below

namespace Xml

/-- What is no number in range is read as zero, which is in range. -/
theorem readOrder_lt (s : String) : readOrder s < Instruction.orderLimit := by
  unfold readOrder
  cases read : Numeral.natural? Instruction.orderLimit (Text.trim s.toList) with
  | none => exact Instruction.zero_lt_orderLimit
  | some n => exact Numeral.lt_of_natural? read

theorem order_lt_of_readInstruction {index : Nat} {n : Node} {i : Instruction}
    (read : readInstruction index n = .ok i) : i.order < Instruction.orderLimit := by
  unfold readInstruction at read
  split at read
  · cases read
  · split at read
    · cases read
    · split at read
      · cases read
      · cases read
        exact readOrder_lt _

theorem inRange_of_readInstructions {index : Nat} {ns : List Node} {is : List Instruction}
    (read : readInstructions index ns = .ok is) : Program.InRange ⟨is⟩ := by
  induction ns generalizing index is with
  | nil =>
    cases read
    exact fun _ mem => absurd mem List.not_mem_nil
  | cons n ns ih =>
    unfold readInstructions at read
    split at read
    · cases read
    · next first =>
      split at read
      · cases read
      · next others =>
        cases read
        exact List.forall_mem_cons.2 ⟨order_lt_of_readInstruction first, ih others⟩

end Xml

namespace Program

/-- A program from a document has order numbers of 32 bits, whatever the document declares. -/
theorem inRange_of_ofXml {parse : Xml.Parser} {text : String} {p : Program}
    (read : ofXml parse text = .ok p) : p.InRange := by
  unfold ofXml at read
  split at read
  · cases read
  · unfold ofRoot at read
    split at read
    · obtain ⟨is, found, rfl⟩ := map_eq_ok_iff.1 read
      exact Xml.inRange_of_readInstructions found
    · cases read

/-! ## Source text -/

/-- A program from source text has order numbers of 32 bits just if it has at most 2³² - 1
instructions. -/
theorem inRange_iff_of_ofSource {text : String} {p : Program} (read : ofSource text = .ok p) :
    p.InRange ↔ p.instructions.length < Instruction.orderLimit := by
  have orders : p.instructions.map Instruction.order = List.range' 1 p.instructions.length := by
    have numbered : numberFrom 1 p.instructions = p.instructions :=
      congrArg Program.instructions (valid_of_ofSource read).2
    rw [← map_order_numberFrom, numbered]
  have counted : p.InRange ↔ ∀ n ∈ List.range' 1 p.instructions.length,
      n < Instruction.orderLimit := by
    rw [← orders, List.forall_mem_map]
    rfl
  rw [counted]
  constructor
  · intro small
    rcases Nat.eq_zero_or_pos p.instructions.length with empty | positive
    · rw [empty]
      exact Instruction.zero_lt_orderLimit
    · exact small _ (List.mem_range'_1.2 ⟨positive, by omega⟩)
  · intro small n mem
    have bounds := List.mem_range'_1.1 mem
    omega

/-- The numbers of a program in order are those it was listed with. -/
theorem InRange.ordered {p q : Program} (range : p.InRange) (ordered : p.ordered = .ok q) :
    q.InRange :=
  fun i mem => range i ((mem_of_ordered ordered).1 mem)

end Program

/-! ## Runs -/

namespace Machine

variable {m k : Machine}

/-- The machine and its program have order numbers of 32 bits. -/
structure NumbersInRange (m : Machine) : Prop where
  program : m.program.InRange
  order : m.order < Instruction.orderLimit

theorem NumbersInRange.step (range : m.NumbersInRange) : m.step.machine.NumbersInRange := by
  cases fetched : m.fetch? with
  | none =>
    rw [step_of_fetch?_none fetched]
    exact range
  | some i =>
    obtain ⟨program, -, order⟩ := step_fetched fetched
    constructor
    · rw [program]
      exact range.program
    · rw [order]
      exact range.program i (List.mem_of_getElem? fetched)

theorem NumbersInRange.after (range : m.NumbersInRange) (n : Nat) :
    (m.after n).machine.NumbersInRange :=
  after_induction (P := fun o => o.machine.NumbersInRange) range (fun _ held => held.step) n

/-- A run of a program whose order numbers have 32 bits reports none that has more. -/
theorem fault_order_lt_of_run {bound : Nat} {e : Fault} (range : m.program.InRange)
    (failed : m.run bound = some (.error (.fault e), k)) : e.order < Instruction.orderLimit := by
  cases ordered : m.program.ordered with
  | error cause =>
    rw [run_of_refused ordered] at failed
    cases failed
  | ok q =>
    obtain ⟨ending, left, reached, finished⟩ := run_eq_some ordered failed
    have named := order?_of_finish reached (congrArg Prod.fst finished)
    have ready : (m.ready q).NumbersInRange :=
      ⟨range.ordered ordered, Instruction.zero_lt_orderLimit⟩
    have held := (ready.after bound).order
    rw [Outcome.machine_of_ending? reached] at held
    rw [Option.some.inj named]
    exact held

end Machine

end FrameCode
