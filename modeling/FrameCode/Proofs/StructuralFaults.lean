import FrameCode.CommandLine.Session
import FrameCode.Proofs.CheckedOperands
import FrameCode.Proofs.Footprint
import FrameCode.Proofs.Ordering
import FrameCode.Proofs.RaisedFaults
import FrameCode.Proofs.ValidProgram

/-!
# Structural faults

A structural fault is one of the program itself: its order numbers, the number and the kinds of
its operands, or a type that cannot be read.  A program that was read from source text meets none
of them, whatever its input and its outlets do.

A step meets a structural fault just if its instruction does not fit its opcode.  The invariant of
a run is that the machine holds a valid program: no instruction changes the program, and a valid
instruction fits its opcode.
-/

namespace FrameCode

/-! ## Structural faults -/

/-- The cause lies in the program, not in the values that it meets. -/
def Cause.isStructural : Cause → Bool
  | .operandCount _ _ => true
  | .operandKind _ _ => true
  | .unreadableType _ => true
  | _ => false

/-- The fault is one of the program. -/
def Fault.isStructural (e : Fault) : Bool := e.cause.isStructural

/-- The run fails for a fault of the program, or because the program has no order. -/
def RunError.isStructural : RunError → Bool
  | .unordered _ => true
  | .fault e => e.isStructural

/-- The exit status 32 is kept for the structural faults. -/
theorem Fault.status_eq_iff {e : Fault} : e.status = 32 ↔ e.isStructural = true := by
  obtain ⟨order, cause⟩ := e
  show cause.status = 32 ↔ cause.isStructural = true
  cases cause with
  | memory e => cases e <;> simp [Cause.status, MemoryError.status, Cause.isStructural]
  | _ => simp [Cause.status, Cause.isStructural]

theorem RunError.status_eq_iff {e : RunError} : e.status = 32 ↔ e.isStructural = true := by
  cases e with
  | unordered e => cases e <;> simp [RunError.status, OrderError.status, RunError.isStructural]
  | fault e => exact Fault.status_eq_iff

/-- The operands in the positions of an instruction that ask for a value. -/
def Instruction.symbols (i : Instruction) : List Operand :=
  match i.opcode? with
  | none => []
  | some op => ((op.signature.zip i.operands).filter fun (s, _) => s == .symbol).map Prod.snd

/-! ## What validity gives -/

/-- An opcode can work on what source text holds at its positions. -/
theorem Slot.Admits.takes {s : Slot} {x : Operand} (admits : s.Admits x) : s.Takes x := by
  cases admits with
  | place => exact .place
  | content => exact .symbol
  | literal => exact .symbol
  | label => exact .label
  | type listed =>
    refine .type ?_
    revert listed
    simp only [List.mem_cons, List.not_mem_nil, or_false]
    rintro (rfl | rfl | rfl) <;> decide

/-- A valid instruction fits its opcode. -/
theorem Instruction.Valid.fits {i : Instruction} (valid : i.Valid) : i.Fits := by
  obtain ⟨op, named, admits⟩ := valid
  intro other known
  have known : i.mnemonic.opcode? = some other := known
  rw [named] at known
  obtain rfl := Option.some.inj known
  exact admits.imp fun _ _ admitted => admitted.takes

/-- Where an instruction asks for a value, a valid one has a value or a variable. -/
theorem Instruction.isSymbol_of_valid {i : Instruction} (valid : i.Valid) :
    ∀ x ∈ i.symbols, x.isSymbol = true := by
  obtain ⟨op, named, admits⟩ := valid
  have opcode : i.opcode? = some op := congrArg Mnemonic.opcode? named
  intro x mem
  simp only [Instruction.symbols, opcode, List.mem_map, List.mem_filter, Prod.exists,
    exists_eq_right] at mem
  obtain ⟨s, paired, asked⟩ := mem
  have admitted : s.Admits x := (List.forall₂_iff_zip.1 admits).2 paired
  obtain rfl : s = .symbol := beq_iff_eq.1 asked
  cases admitted <;> rfl

theorem Program.map_order_numberFrom (order : Nat) (is : List Instruction) :
    (numberFrom order is).map Instruction.order = List.range' order is.length := by
  induction is generalizing order with
  | nil => rfl
  | cons i is ih => rw [numberFrom, List.map_cons, ih, List.length_cons, List.range'_succ]

/-- Consecutive order numbers are accepted. -/
theorem Program.orderFault?_renumbered (p : Program) :
    orderFault? [] p.renumbered.instructions = none := by
  have orders : p.renumbered.instructions.map Instruction.order =
      List.range' 1 p.instructions.length := map_order_numberFrom 1 p.instructions
  refine orderFault?_eq_none_iff.2 ⟨fun i mem => ⟨?_, List.not_mem_nil⟩, ?_⟩
  · have listed : i.order ∈ List.range' 1 p.instructions.length := by
      rw [← orders]
      exact List.mem_map_of_mem mem
    exact Nat.ne_of_gt (List.mem_range'_1.1 listed).1
  · rw [orders]
    exact List.nodup_range'

theorem Program.Valid.of_ordered {p q : Program} (valid : p.Valid) (ordered : p.ordered = .ok q) :
    q.Valid :=
  fun i mem => valid i ((Program.mem_of_ordered ordered).1 mem)

/-! ## The invariant -/

namespace Machine

variable {m : Machine}

/-- Only a read meets a structural fault once its operands have been checked. -/
theorem unstructural_of_raisedBy {op : Opcode} (other : op ≠ .read) {cause : Cause}
    (raised : cause.RaisedBy op) : cause.isStructural = false := by
  cases cause with
  | operandCount => exact raised.elim
  | operandKind => exact raised.elim
  | unreadableType => exact absurd raised other
  | _ => rfl

/-- A read is refused for its type just if that cannot be read. -/
theorem read_unstructural_iff {name : String} (p : Place) :
    (m.read p name).Fails (·.isStructural = false) ↔
      (ValueType.ofName? name).any ValueType.readable = true := by
  have readable : ((ValueType.ofName? name).bind m.input.next.1.value?).isSome =
      (ValueType.ofName? name).any ValueType.readable := by
    cases ValueType.ofName? name with
    | none => rfl
    | some t => exact Line.isSome_value? _ t
  rw [read_eq, ← readable]
  cases (ValueType.ofName? name).bind m.input.next.1.value? with
  | none =>
    exact ⟨fun refused => absurd (show true = false from refused) nofun,
      fun some => Bool.noConfusion some⟩
  | some v => exact ⟨fun _ => rfl, fun _ => store_fails fun _ => rfl⟩

/-- What an opcode is executed with is no structural fault just if the opcode can work on it. -/
theorem execute_unstructural_iff {op : Opcode} (xs : Operands op) :
    (m.execute op xs).Fails (·.isStructural = false) ↔
      List.Forall₂ Slot.Takes op.signature (xs.toList) := by
  by_cases reads : op = .read
  · subst reads
    obtain ⟨order, p, name, ⟨⟩⟩ := xs
    refine (read_unstructural_iff p).trans
      ⟨fun readable => .cons .place (.cons (.type readable) .nil), fun takes => ?_⟩
    obtain ⟨-, others⟩ := List.forall₂_cons.1 takes
    obtain ⟨named, -⟩ := List.forall₂_cons.1 others
    cases named with
    | type readable => exact readable
  · have untyped : .type ∉ op.signature := mt Opcode.type_mem_signature.1 reads
    exact ⟨fun _ => Slot.takes_toList untyped xs.contents,
      fun _ => (execute_raisedBy m op xs).imp fun _ raised =>
        unstructural_of_raisedBy reads raised.cause⟩

/-- A step meets a structural fault just if the next instruction does not fit its opcode. -/
theorem step_unstructural_iff :
    m.step.Fails (·.isStructural = false) ↔ ∀ i, m.fetch? = some i → i.Fits := by
  cases fetched : m.fetch? with
  | none =>
    rw [step_of_fetch?_none fetched]
    refine ⟨fun _ i found => ?_, fun _ => trivial⟩
    cases found
  | some i =>
    simp only [Option.some.injEq, forall_eq']
    cases known : i.opcode? with
    | none =>
      rw [step_of_unknown fetched known]
      refine ⟨fun _ op named => ?_, fun _ => trivial⟩
      rw [known] at named
      cases named
    | some op =>
      have fits_iff : i.Fits ↔ List.Forall₂ Slot.Takes op.signature i.operands := by
        simp only [Instruction.Fits, known, Option.some.injEq, forall_eq']
      rw [step_of_known fetched known, fits_iff]
      cases checked : Operands.check op i with
      | error e =>
        have structural : e.isStructural = true := by
          rcases Operands.check_eq_error checked with rfl | ⟨n, rfl⟩ <;> rfl
        refine ⟨fun fails => absurd fails (by simp [Outcome.Fails, attempt_error, structural]),
          fun takes => ?_⟩
        obtain ⟨contents, passed⟩ := Operands.check_of_takes takes
        rw [checked] at passed
        cases passed
      | ok xs =>
        rw [attempt_ok, Operands.toList_of_check checked]
        exact execute_unstructural_iff xs

/-- A machine with a valid program meets no structural fault in its next step. -/
theorem step_unstructural (valid : m.program.Valid) : m.step.Fails (·.isStructural = false) :=
  step_unstructural_iff.2 fun i fetched => (valid i (List.mem_of_getElem? fetched)).fits

/-- The invariant of a run: the program stays as it was, and no structural fault arises. -/
theorem after_unstructural (valid : m.program.Valid) (n : Nat) :
    (m.after n).machine.program = m.program ∧ (m.after n).Fails (·.isStructural = false) := by
  refine after_induction (P := fun o => o.machine.program = m.program ∧
    o.Fails (·.isStructural = false)) ⟨rfl, trivial⟩ (fun k held => ?_) n
  have program : k.program = m.program := held.1
  exact ⟨(step_program k).trans program, step_unstructural (program ▸ valid)⟩

/-- The ending of a bounded run is not a structural fault. -/
theorem loop_unstructural (valid : m.program.Valid) {bound : Nat} {result : Except Fault Halt}
    {k : Machine} (ended : loop bound m = some (result, k)) :
    ∀ e, result = .error e → e.isStructural = false := by
  rw [loop_eq_ending?] at ended
  exact (Outcome.fails_iff_of_ending? ended).1 (after_unstructural valid bound).2

/-! ## Runs of programs from source text -/

/-- A machine starts on a program from source text, and holds a valid program then. -/
theorem start_of_ofSource {text : String} (read : Program.ofSource text = .ok m.program) :
    ∃ s, m.start = .ok s ∧ s.program.Valid := by
  obtain ⟨valid, numbered⟩ := Program.valid_of_ofSource read
  have free : Program.orderFault? [] m.program.instructions = none := by
    rw [← numbered]
    exact Program.orderFault?_renumbered m.program
  have ordered : m.program.ordered = .ok ⟨Program.sort m.program.instructions⟩ := by
    rw [Program.ordered, free]
  refine ⟨m.ready ⟨Program.sort m.program.instructions⟩, ?_, valid.of_ordered ordered⟩
  rw [start_eq, ordered]
  rfl

/-- The results that are reported with the exit status 32. -/
theorem report_status_eq_iff {result : Except RunError Halt} {k : Machine} :
    (CommandLine.report result k).status = 32 ↔
    ∃ e, result = .error e ∧ e.isStructural = true := by
  cases result with
  | ok h =>
    have other : h.status ≠ 32 := by
      cases h with
      | finished => exact Nat.zero_ne_add_one 31
      | exit code => exact Nat.ne_of_lt (Nat.lt_trans code.isLt (by decide))
    exact ⟨fun status => absurd status other, fun ⟨_, failed, _⟩ => nomatch failed⟩
  | error e =>
    refine RunError.status_eq_iff.trans ⟨fun structural => ⟨e, rfl, structural⟩, ?_⟩
    rintro ⟨f, ⟨⟩, structural⟩
    exact structural

/-- A result that is not structural is reported with another status than 32. -/
theorem report_status_ne {result : Except RunError Halt}
    (unstructural : ∀ e, result = .error e → e.isStructural = false) (k : Machine) :
    (CommandLine.report result k).status ≠ 32 := by
  rw [Ne, report_status_eq_iff]
  rintro ⟨e, failed, structural⟩
  rw [unstructural e failed] at structural
  cases structural

theorem finish_unstructural {result : Except Fault Halt}
    (unstructural : ∀ e, result = .error e → e.isStructural = false) (k : Machine) :
    ∀ e, (k.finish result).1 = .error e → e.isStructural = false := by
  intro e failed
  rcases finish_eq_error failed with ⟨cause, ended, rfl⟩ | ⟨h, reason, -, -, rfl⟩
  · exact unstructural cause ended
  · rfl

/-- **No run of a program from source text fails for the program itself.**  However long it runs,
and whatever its input and its outlets do, it never ends with a structural error or the exit
status 32, and no value it asks for is the name of a label or of a type. -/
theorem run_unstructural {text : String} {p : Program} (read : Program.ofSource text = .ok p)
    (input : Input) (out diagnostics : Outlet) :
    (∀ bound result k, (new p input out diagnostics).run bound = some (result, k) →
      (∀ e, result = .error e → e.isStructural = false) ∧
        (CommandLine.report result k).status ≠ 32) ∧
    ∀ k, (new p input out diagnostics).Visits k → ∀ i, k.fetch? = some i →
      ∀ x ∈ i.symbols, x.isSymbol = true := by
  obtain ⟨s, started, valid⟩ := start_of_ofSource (m := new p input out diagnostics) read
  refine ⟨fun bound result k ended => ?_, fun k visited i fetched => ?_⟩
  · rw [run, started] at ended
    obtain ⟨⟨ending, left⟩, looped, finished⟩ := Option.map_eq_some_iff.1 ended
    obtain ⟨rfl, rfl⟩ := Prod.mk.inj finished
    have unstructural := finish_unstructural (loop_unstructural valid looped) left
    exact ⟨unstructural, report_status_ne unstructural _⟩
  · cases visited with
    | unordered failed =>
      rw [started] at failed
      cases failed
    | after n success =>
      obtain rfl := Except.ok.inj (started.symm.trans success)
      have kept := (after_unstructural valid n).1
      have mem := List.mem_of_getElem? fetched
      rw [kept] at mem
      exact Instruction.isSymbol_of_valid (valid i mem)

/-- A read into the temporary frame and an endless loop around a write that is refused
in the end. -/
theorem run_unstructural_loop :
    let x : Place := ⟨.temporary, "x"⟩
    let p : Program := ⟨[⟨.known .createFrame, [], 1⟩, ⟨.known .defvar, [.place x], 2⟩,
      ⟨.known .read, [.place x, .type "int"], 3⟩, ⟨.known .label, [.label "again"], 4⟩,
      ⟨.known .write, [.place x], 5⟩, ⟨.known .jump, [.label "again"], 6⟩]⟩
    let text := ".IPPcode24\nCREATEFRAME\nDEFVAR TF@x # a variable\n\n"
      ++ "READ TF@x int\nlabel again\nWRITE TF@x\nJUMP again\n"
    let out : Outlet := ⟨fun n => if n < 9 then none else some "full", fun _ _ => none, 0, 0, []⟩
    let m := new p (.ofText "7") out .reliable
    Program.ofSource text = .ok p ∧
      (∀ bound result k, m.run bound = some (result, k) →
        (∀ e, result = .error e → e.isStructural = false) ∧
          (CommandLine.report result k).status ≠ 32) ∧
      ∀ k, m.Visits k → ∀ i, k.fetch? = some i → ∀ x ∈ i.symbols, x.isSymbol = true := by
  intro x p text out m
  have read : Program.ofSource text = .ok p := by decide
  exact ⟨read, run_unstructural read _ _ _⟩

end Machine

end FrameCode
