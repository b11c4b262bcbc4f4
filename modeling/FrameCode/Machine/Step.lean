import FrameCode.Machine.Operands
import FrameCode.Machine.State
import FrameCode.Operation

/-!
# Steps

`Machine.step` takes one instruction from the program and executes it.  Its outcome is the state
to go on with, or the end of the run with the state it leaves.

An instruction that fails leaves the state as it found it, with two exceptions: a value that was
popped and cannot be stored is gone, and so is an input line that was read and cannot be stored.
-/

namespace FrameCode

/-- What comes of a step. -/
inductive Outcome where
  | next (m : Machine)
  | halted (h : Halt) (m : Machine)
  | failed (e : Fault) (m : Machine)

namespace Machine

/-- Goes on with a result, or fails in the state there is. -/
def attempt {α : Type} (m : Machine) (result : Except Fault α) (go : α → Outcome) : Outcome :=
  match result with
  | .ok a => go a
  | .error e => .failed e m

theorem attempt_ok {α : Type} (m : Machine) (a : α) (go : α → Outcome) :
    m.attempt (.ok a) go = go a := rfl

theorem attempt_error {α : Type} (m : Machine) (e : Fault) (go : α → Outcome) :
    m.attempt (.error e) go = .failed e m := rfl

/-- A fault for what the memory refuses. -/
def memoryFault (m : Machine) (e : MemoryError) : Fault := m.fault (.memory e)

/-- Goes on with what the memory answers, or fails in the state there is. -/
def access {α : Type} (m : Machine) (result : Except MemoryError α) (go : α → Outcome) :
    Outcome :=
  m.attempt (result.mapError m.memoryFault) go

/-- Keeps the memory that an operation leaves, and goes on unless it was refused. -/
def update (m : Machine) : Except MemoryError Unit × Memory → Outcome
  | (.ok (), memory) => .next { m with memory }
  | (.error e, memory) => .failed (m.memoryFault e) { m with memory }

/-! ## Values and variables

The faults of values name the order number of the operands, `order`; those of the memory name the
instruction fetched last. -/

/-- The value of an operand. -/
def symbol (m : Machine) (order : Nat) (op : Opcode) : Operand → Except Fault Value
  | .literal v => .ok v
  | .place p => (m.memory.value p).mapError m.memoryFault
  | .label _ => .error ⟨order, .typeMismatch op⟩
  | .type _ => .error ⟨order, .typeMismatch op⟩

/-- The value of an operand; `none` for a variable without content. -/
def content (m : Machine) (order : Nat) (op : Opcode) : Operand → Except Fault (Option Value)
  | .literal v => .ok (some v)
  | .place p => ((m.memory.read p).map Cell.content).mapError m.memoryFault
  | .label _ => .error ⟨order, .typeMismatch op⟩
  | .type _ => .error ⟨order, .typeMismatch op⟩

/-- Assigns to a variable. -/
def store (m : Machine) (p : Place) (v : Value) : Outcome := m.update (m.memory.write p v)

/-- Assigns what an operation makes of one value. -/
def unary (m : Machine) (order : Nat) (op : Opcode) (f : Value → Except Fault Value) (p : Place)
    (x : Operand) : Outcome :=
  m.attempt (m.symbol order op x) fun a =>
    m.attempt (f a) fun v => m.store p v

/-- Assigns what an operation makes of two values. -/
def binary (m : Machine) (order : Nat) (op : Opcode)
    (f : Value → Value → Except Fault Value) (p : Place) (x y : Operand) : Outcome :=
  m.attempt (m.symbol order op x) fun a =>
    m.attempt (m.symbol order op y) fun b =>
      m.attempt (f a b) fun v => m.store p v

/-- Replaces a character of a variable. -/
def setChar (m : Machine) (order : Nat) (p : Place) (x y : Operand) : Outcome :=
  m.access (m.memory.value p) fun current =>
    m.attempt (m.symbol order .setchar x) fun index =>
      m.attempt (m.symbol order .setchar y) fun replacement =>
        m.attempt (Operation.setChar order current index replacement) fun v => m.store p v

/-! ## Jumps -/

/-- The position of a label. -/
def target (m : Machine) (name : String) : Except Fault Nat :=
  match m.labels.resolve? name with
  | some position => .ok position
  | none => .error (m.fault (.undefinedLabel name))

/-- Jumps if the equality of two values is `wanted`.  The label has to be defined in either
case. -/
def jumpIf (m : Machine) (order : Nat) (op : Opcode) (wanted : Bool) (label : String)
    (x y : Operand) : Outcome :=
  m.attempt (m.target label) fun position =>
    m.attempt (m.symbol order op x) fun a =>
      m.attempt (m.symbol order op y) fun b =>
        m.attempt (Operation.jumpEquals order op a b) fun equal =>
          .next (if equal = wanted then { m with position } else m)

/-! ## Input and output -/

/-- Takes one line of the input. -/
def readLine (m : Machine) : Line × Machine :=
  let (line, input) := m.input.next
  let m := { m with input }
  match line.failure? with
  | some reason => (line, m.record (.readFailed reason))
  | none => (line, m)

/-- Assigns the value of the next input line. -/
def read (m : Machine) (p : Place) (type : String) : Outcome :=
  match ValueType.ofName? type with
  | some .int =>
    let (line, m) := m.readLine
    m.store p (.int line.int)
  | some .bool =>
    let (line, m) := m.readLine
    m.store p (.bool line.bool)
  | some .string =>
    let (line, m) := m.readLine
    m.store p (.ofText line.plain)
  | some .nil => .failed (m.fault (.unreadableType type)) m
  | none => .failed (m.fault (.unreadableType type)) m

/-- Writes a value to the output. -/
def write (m : Machine) (order : Nat) (x : Operand) : Outcome :=
  m.attempt (m.symbol order .write x) fun v =>
    match m.out.write v.output with
    | (none, out) => .next { m with out }
    | (some reason, out) => .failed (m.fault (.output reason)) { m with out }

/-- Writes a value to the diagnostics. -/
def dprint (m : Machine) (order : Nat) (x : Operand) : Outcome :=
  m.attempt (m.symbol order .dprint x) fun v =>
    match m.diagnostics.write v.output with
    | (none, diagnostics) => .next { m with diagnostics }
    | (some reason, diagnostics) => .failed (m.fault (.output reason)) { m with diagnostics }

/-- Writes a dump to the diagnostics; a refusal is only recorded. -/
def writeDump (m : Machine) : Machine :=
  match m.diagnostics.write m.dump with
  | (none, diagnostics) => { m with diagnostics }
  | (some reason, diagnostics) => { m with diagnostics }.record (.dumpRefused reason)

/-! ## Instructions -/

/-- Executes an opcode with checked operands. -/
def execute (m : Machine) : (op : Opcode) → Operands op → Outcome
  | .move, ⟨order, p, x, ()⟩ => m.attempt (m.symbol order .move x) fun v => m.store p v
  | .createFrame, _ => .next { m with memory := m.memory.createFrame }
  | .pushFrame, _ => m.update m.memory.pushFrame
  | .popFrame, _ => m.update m.memory.popFrame
  | .defvar, ⟨_, p, ()⟩ => m.update (m.memory.define p)
  | .call, ⟨_, label, ()⟩ =>
    m.attempt (m.target label) fun position =>
      .next { m with position, calls := m.position :: m.calls }
  | .ret, _ =>
    match m.calls with
    | position :: calls => .next { m with position, calls }
    | [] => .failed (m.fault .callStackEmpty) m
  | .pushs, ⟨order, x, ()⟩ =>
    m.attempt (m.symbol order .pushs x) fun v => .next { m with stack := v :: m.stack }
  | .pops, ⟨_, p, ()⟩ =>
    match m.stack with
    | v :: stack => { m with stack }.store p v
    | [] => .failed (m.fault .dataStackEmpty) m
  | .add, ⟨order, p, x, y, ()⟩ =>
    m.binary order .add (Operation.arithmetic order .add) p x y
  | .sub, ⟨order, p, x, y, ()⟩ =>
    m.binary order .sub (Operation.arithmetic order .sub) p x y
  | .mul, ⟨order, p, x, y, ()⟩ =>
    m.binary order .mul (Operation.arithmetic order .mul) p x y
  | .idiv, ⟨order, p, x, y, ()⟩ =>
    m.binary order .idiv (Operation.arithmetic order .idiv) p x y
  | .lt, ⟨order, p, x, y, ()⟩ =>
    m.binary order .lt
      (fun a b => (Operation.compare order .lt a b).map fun o => .bool (o == .lt)) p x y
  | .gt, ⟨order, p, x, y, ()⟩ =>
    m.binary order .gt
      (fun a b => (Operation.compare order .gt a b).map fun o => .bool (o == .gt)) p x y
  | .eq, ⟨order, p, x, y, ()⟩ =>
    m.binary order .eq (fun a b => (Operation.equals order a b).map .bool) p x y
  | .and, ⟨order, p, x, y, ()⟩ => m.binary order .and (Operation.logic order .and) p x y
  | .or, ⟨order, p, x, y, ()⟩ => m.binary order .or (Operation.logic order .or) p x y
  | .not, ⟨order, p, x, ()⟩ => m.unary order .not (Operation.not order) p x
  | .int2char, ⟨order, p, x, ()⟩ => m.unary order .int2char (Operation.charOfCode order) p x
  | .stri2int, ⟨order, p, x, y, ()⟩ => m.binary order .stri2int (Operation.codeAt order) p x y
  | .read, ⟨_, p, type, ()⟩ => m.read p type
  | .write, ⟨order, x, ()⟩ => m.write order x
  | .concat, ⟨order, p, x, y, ()⟩ => m.binary order .concat (Operation.concat order) p x y
  | .strlen, ⟨order, p, x, ()⟩ => m.unary order .strlen (Operation.length order) p x
  | .getchar, ⟨order, p, x, y, ()⟩ => m.binary order .getchar (Operation.charAt order) p x y
  | .setchar, ⟨order, p, x, y, ()⟩ => m.setChar order p x y
  | .type, ⟨order, p, x, ()⟩ =>
    m.attempt (m.content order .type x) fun v => m.store p (Operation.typeName v)
  | .label, _ => .next m
  | .jump, ⟨_, label, ()⟩ =>
    m.attempt (m.target label) fun position => .next { m with position }
  | .jumpIfEq, ⟨order, label, x, y, ()⟩ => m.jumpIf order .jumpIfEq true label x y
  | .jumpIfNeq, ⟨order, label, x, y, ()⟩ => m.jumpIf order .jumpIfNeq false label x y
  | .exit, ⟨order, x, ()⟩ =>
    m.attempt (m.symbol order .exit x) fun v =>
      m.attempt (Operation.exitCode order v) fun code => .halted (.exit code) m
  | .dprint, ⟨order, x, ()⟩ => m.dprint order x
  | .break, _ => .next m.writeDump

/-- The machine after taking an instruction from the program. -/
def advance (m : Machine) (i : Instruction) : Machine :=
  { m with position := m.position + 1, order := i.order }

/-- Takes the next instruction and executes it.  An instruction without an opcode is passed over;
past the last instruction the run ends. -/
def step (m : Machine) : Outcome :=
  match m.fetch? with
  | none => .halted .finished m
  | some i =>
    let m := m.advance i
    match i.opcode? with
    | none => .next (m.record (.skipped i.mnemonic.text i.order))
    | some op =>
      let m := { m with steps := m.steps + 1 }.record (.dispatched i)
      m.attempt (Operands.check op i) fun xs => m.execute op xs

end Machine

end FrameCode
