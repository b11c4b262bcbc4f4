import FrameCode.Proofs.CheckedOperands
import FrameCode.Proofs.RaisedFaults

/-!
# Access to operands

Execution gets all contents of the positions of an opcode at once.  A `Course` takes the operands
of an instruction one at a time instead, by their indices, when it comes to need them: after a
value was popped, or a label resolved.  Each time the operand can be missing or of another kind,
and the course fails there.

`course_serves` says that the check leaves no such failure: it finds each operand that it asks
for, and ends as the execution does.  So the signatures agree with the indices and kinds that
the opcodes use.
-/

namespace FrameCode

/-- A cause in the operands as they are written: their number, or the kind of one of them. -/
def Cause.isMisfit : Cause → Bool
  | .operandCount _ _ => true
  | .operandKind _ _ => true
  | _ => false

/-- The content for a position of the given kind in the operand at an index, if that
operand fits it. -/
def Operands.contentAt? (xs : List Operand) (index : Nat) (s : Slot) : Option s.Content :=
  xs[index]?.bind s.fit?

/-- An execution that takes its operands one at a time.  `take` asks the operand at an index for
the content of a position, and names the machine that is left if there is none. -/
inductive Course where
  | done (o : Outcome)
  | take (m : Machine) (index : Nat) (s : Slot) (go : s.Content → Course)

namespace Course

/-- Goes on with a result, or fails in the state there is. -/
def attempt {α : Type} (m : Machine) (result : Except Fault α) (go : α → Course) : Course :=
  match result with
  | .ok a => go a
  | .error e => .done (.failed e m)

/-- Goes on with what the memory answers, or fails in the state there is. -/
def access {α : Type} (m : Machine) (result : Except MemoryError α) (go : α → Course) : Course :=
  attempt m (result.mapError m.memoryFault) go

/-- The outcome with the given operands of an instruction with the given order number. -/
def run (op : Opcode) (order : Nat) (xs : List Operand) : Course → Outcome
  | done o => o
  | take m index s go =>
    match Operands.contentAt? xs index s with
    | some content => (go content).run op order xs
    | none => .failed ⟨order, .operandKind op (index + 1)⟩ m

/-- Each operand that is asked for is there and of the right kind. -/
def Finds (xs : List Operand) : Course → Prop
  | done _ => True
  | take _ index s go =>
    ∃ content, Operands.contentAt? xs index s = some content ∧ (go content).Finds xs

/-! ## Courses that find their operands -/

/-- The course finds its operands and has the given outcome. -/
structure Serves (c : Course) (op : Opcode) (order : Nat) (xs : List Operand) (o : Outcome) :
    Prop where
  finds : c.Finds xs
  run_eq : c.run op order xs = o

section Rules

variable {α : Type} {m : Machine} {op : Opcode} {order : Nat} {xs : List Operand} {o : Outcome}

theorem serves_done (o : Outcome) : (done o).Serves op order xs o := ⟨trivial, rfl⟩

theorem serves_take {index : Nat} {s : Slot} {go : s.Content → Course} {content : s.Content}
    (found : Operands.contentAt? xs index s = some content)
    (further : (go content).Serves op order xs o) : (take m index s go).Serves op order xs o where
  finds := ⟨content, found, further.finds⟩
  run_eq := by rw [run, found]; exact further.run_eq

theorem serves_attempt {result : Except Fault α} {go : α → Course} {go' : α → Outcome}
    (further : ∀ a, (go a).Serves op order xs (go' a)) :
    (attempt m result go).Serves op order xs (m.attempt result go') := by
  cases result with
  | ok a => exact further a
  | error e => exact serves_done _

theorem serves_access {result : Except MemoryError α} {go : α → Course} {go' : α → Outcome}
    (further : ∀ a, (go a).Serves op order xs (go' a)) :
    (access m result go).Serves op order xs (m.access result go') :=
  serves_attempt further

end Rules

end Course

/-! ## The opcodes -/

namespace Machine

open Course

/-- Takes the operand at an index and goes on with its value. -/
def takeSymbol (m : Machine) (order : Nat) (op : Opcode) (index : Nat) (go : Value → Course) :
    Course :=
  .take m index .symbol fun x => .attempt m (m.symbol order op x) go

/-- The destination, the value of one operand, and the assignment. -/
def unaryCourse (m : Machine) (order : Nat) (op : Opcode) (f : Value → Except Fault Value) :
    Course :=
  .take m 0 .place fun p =>
    m.takeSymbol order op 1 fun a =>
      .attempt m (f a) fun v => .done (m.store p v)

/-- The destination, the values of two operands, and the assignment. -/
def binaryCourse (m : Machine) (order : Nat) (op : Opcode)
    (f : Value → Value → Except Fault Value) : Course :=
  .take m 0 .place fun p =>
    m.takeSymbol order op 1 fun a =>
      m.takeSymbol order op 2 fun b =>
        .attempt m (f a b) fun v => .done (m.store p v)

/-- The variable and its value, the values of two operands, and the assignment. -/
def setCharCourse (m : Machine) (order : Nat) : Course :=
  .take m 0 .place fun p =>
    .access m (m.memory.value p) fun current =>
      m.takeSymbol order .setchar 1 fun index =>
        m.takeSymbol order .setchar 2 fun replacement =>
          .attempt m (Operation.setChar order current index replacement) fun v =>
            .done (m.store p v)

/-- The label and its position, the values of two operands, and the jump. -/
def jumpIfCourse (m : Machine) (order : Nat) (op : Opcode) (wanted : Bool) : Course :=
  .take m 0 .label fun label =>
    .attempt m (m.target label) fun position =>
      m.takeSymbol order op 1 fun a =>
        m.takeSymbol order op 2 fun b =>
          .attempt m (Operation.jumpEquals order op a b) fun equal =>
            .done (.next (if equal = wanted then { m with position } else m))

/-- The execution of an opcode in the order in which it comes to need its operands, for an
instruction with the given order number. -/
def course (m : Machine) (order : Nat) : Opcode → Course
  | .move => m.takeSymbol order .move 1 fun v => .take m 0 .place fun p => .done (m.store p v)
  | .createFrame => .done (.next { m with memory := m.memory.createFrame })
  | .pushFrame => .done (m.update m.memory.pushFrame)
  | .popFrame => .done (m.update m.memory.popFrame)
  | .defvar => .take m 0 .place fun p => .done (m.update (m.memory.define p))
  | .call =>
    .take m 0 .label fun label =>
      .attempt m (m.target label) fun position =>
        .done (.next { m with position, calls := m.position :: m.calls })
  | .ret =>
    match m.calls with
    | position :: calls => .done (.next { m with position, calls })
    | [] => .done (.failed (m.fault .callStackEmpty) m)
  | .pushs => m.takeSymbol order .pushs 0 fun v => .done (.next { m with stack := v :: m.stack })
  | .pops =>
    match m.stack with
    | v :: stack => .take { m with stack } 0 .place fun p => .done ({ m with stack }.store p v)
    | [] => .done (.failed (m.fault .dataStackEmpty) m)
  | .add => m.binaryCourse order .add (Operation.arithmetic order .add)
  | .sub => m.binaryCourse order .sub (Operation.arithmetic order .sub)
  | .mul => m.binaryCourse order .mul (Operation.arithmetic order .mul)
  | .idiv => m.binaryCourse order .idiv (Operation.arithmetic order .idiv)
  | .lt => m.binaryCourse order .lt fun a b =>
    (Operation.compare order .lt a b).map fun o => .bool (o == .lt)
  | .gt => m.binaryCourse order .gt fun a b =>
    (Operation.compare order .gt a b).map fun o => .bool (o == .gt)
  | .eq => m.binaryCourse order .eq fun a b => (Operation.equals order a b).map .bool
  | .and => m.binaryCourse order .and (Operation.logic order .and)
  | .or => m.binaryCourse order .or (Operation.logic order .or)
  | .not => m.unaryCourse order .not (Operation.not order)
  | .int2char => m.unaryCourse order .int2char (Operation.charOfCode order)
  | .stri2int => m.binaryCourse order .stri2int (Operation.codeAt order)
  | .read => .take m 0 .place fun p => .take m 1 .type fun name => .done (m.read p name)
  | .write => .take m 0 .symbol fun x => .done (m.write order x)
  | .concat => m.binaryCourse order .concat (Operation.concat order)
  | .strlen => m.unaryCourse order .strlen (Operation.length order)
  | .getchar => m.binaryCourse order .getchar (Operation.charAt order)
  | .setchar => m.setCharCourse order
  | .type =>
    .take m 0 .place fun p =>
      .take m 1 .symbol fun x =>
        .attempt m (m.content order .type x) fun v => .done (m.store p (Operation.typeName v))
  | .label => .done (.next m)
  | .jump =>
    .take m 0 .label fun label =>
      .attempt m (m.target label) fun position => .done (.next { m with position })
  | .jumpIfEq => m.jumpIfCourse order .jumpIfEq true
  | .jumpIfNeq => m.jumpIfCourse order .jumpIfNeq false
  | .exit =>
    m.takeSymbol order .exit 0 fun v =>
      .attempt m (Operation.exitCode order v) fun code => .done (.halted (.exit code) m)
  | .dprint => .take m 0 .symbol fun x => .done (m.dprint order x)
  | .break => .done (.next m.writeDump)

variable {m : Machine} {op : Opcode} {order : Nat} {xs : List Operand} {p : Place} {x y : Operand}

theorem serves_takeSymbol {index : Nat} {go : Value → Course} {go' : Value → Outcome}
    (found : xs[index]? = some x) (further : ∀ v, (go v).Serves op order xs (go' v)) :
    (m.takeSymbol order op index go).Serves op order xs
      (m.attempt (m.symbol order op x) go') := by
  have fits : Operands.contentAt? xs index .symbol = some x := by
    rw [Operands.contentAt?, found]
    rfl
  exact serves_take fits (serves_attempt further)

theorem unaryCourse_serves (f : Value → Except Fault Value) :
    (m.unaryCourse order op f).Serves op order [.place p, x] (m.unary order op f p x) :=
  serves_take rfl <| serves_takeSymbol rfl fun _ => serves_attempt fun _ => serves_done _

theorem binaryCourse_serves (f : Value → Value → Except Fault Value) :
    (m.binaryCourse order op f).Serves op order [.place p, x, y] (m.binary order op f p x y) :=
  serves_take rfl <| serves_takeSymbol rfl fun _ => serves_takeSymbol rfl fun _ =>
    serves_attempt fun _ => serves_done _

theorem setCharCourse_serves :
    (m.setCharCourse order).Serves .setchar order [.place p, x, y] (m.setChar order p x y) :=
  serves_take rfl <| serves_access fun _ => serves_takeSymbol rfl fun _ =>
    serves_takeSymbol rfl fun _ => serves_attempt fun _ => serves_done _

theorem jumpIfCourse_serves {wanted : Bool} {label : String} :
    (m.jumpIfCourse order op wanted).Serves op order [.label label, x, y]
      (m.jumpIf order op wanted label x y) :=
  serves_take rfl <| serves_attempt fun _ => serves_takeSymbol rfl fun _ =>
    serves_takeSymbol rfl fun _ => serves_attempt fun _ => serves_done _

/-- With operands that have passed the check, the course of an opcode finds what it asks for and
ends as the execution does. -/
theorem course_serves (m : Machine) (op : Opcode) (xs : Operands op) :
    (m.course xs.order op).Serves op xs.order xs.toList (m.execute op xs) := by
  cases op with
  | move =>
    obtain ⟨order, p, x, ⟨⟩⟩ := xs
    exact serves_takeSymbol rfl fun _ => serves_take rfl (serves_done _)
  | createFrame | label | «break» => exact serves_done _
  | pushFrame | popFrame => exact serves_done _
  | defvar => exact serves_take rfl (serves_done _)
  | call | jump => exact serves_take rfl <| serves_attempt fun _ => serves_done _
  | ret =>
    cases pushed : m.calls with
    | nil =>
      rw [execute_ret_nil pushed, course, pushed]
      exact serves_done _
    | cons position calls =>
      rw [execute_ret_cons pushed, course, pushed]
      exact serves_done _
  | pushs => exact serves_takeSymbol rfl fun _ => serves_done _
  | pops =>
    obtain ⟨order, p, ⟨⟩⟩ := xs
    cases pushed : m.stack with
    | nil =>
      rw [execute_pops_nil pushed, course, pushed]
      exact serves_done _
    | cons v stack =>
      rw [execute_pops_cons pushed, course, pushed]
      exact serves_take rfl (serves_done _)
  | read => exact serves_take rfl <| serves_take rfl (serves_done _)
  | write | dprint => exact serves_take rfl (serves_done _)
  | type =>
    obtain ⟨order, p, x, ⟨⟩⟩ := xs
    exact serves_take rfl <| serves_take rfl <| serves_attempt fun _ => serves_done _
  | exit => exact serves_takeSymbol rfl fun _ => serves_attempt fun _ => serves_done _
  | setchar => exact setCharCourse_serves
  | jumpIfEq | jumpIfNeq => exact jumpIfCourse_serves
  | not | int2char | strlen => exact unaryCourse_serves _
  | add | sub | mul | idiv | lt | gt | eq | and | or | stri2int | concat | getchar =>
    exact binaryCourse_serves _

theorem course_serves_of_check {i : Instruction} {xs : Operands op}
    (checked : Operands.check op i = .ok xs) (m : Machine) :
    (m.course i.order op).Serves op i.order i.operands (m.execute op xs) := by
  rw [Operands.toList_of_check checked, ← Operands.order_of_check checked]
  exact course_serves m op xs

/-! ## Operands that do not fit -/

/-- An opcode that is executed raises no fault of this kind. -/
theorem execute_fits (m : Machine) (op : Opcode) (xs : Operands op) :
    (m.execute op xs).Fails (·.cause.isMisfit = false) := by
  refine (execute_raisedBy m op xs).imp fun e raised => ?_
  obtain ⟨order, cause⟩ := e
  cases cause with
  | operandCount => exact raised.cause.elim
  | operandKind => exact raised.cause.elim
  | _ => rfl

/-- The check refuses operands for nothing else. -/
theorem misfit_of_check {i : Instruction} {e : Fault} (refused : Operands.check op i = .error e) :
    e.cause.isMisfit = true := by
  rcases Operands.check_eq_error refused with rfl | ⟨n, rfl⟩
  · rfl
  · rfl

variable {i : Instruction}

/-- An instruction whose operands pass the check is executed, and can as well take them
one by one. -/
theorem step_of_checked (fetched : m.fetch? = some i) (known : i.opcode? = some op)
    {xs : Operands op} (checked : Operands.check op i = .ok xs) :
    m.step = (m.dispatch i).execute op xs ∧
      m.step = ((m.dispatch i).course i.order op).run op i.order i.operands := by
  have executed : m.step = (m.dispatch i).execute op xs := by
    rw [step_of_known fetched known, checked, attempt_ok]
  exact ⟨executed, executed.trans (course_serves_of_check checked (m.dispatch i)).run_eq.symm⟩

/-- An instruction whose operands are refused changes nothing but its traces. -/
theorem step_of_refused (fetched : m.fetch? = some i) (known : i.opcode? = some op) {e : Fault}
    (refused : Operands.check op i = .error e) :
    m.step = .failed e { m with
      position := m.position + 1
      order := i.order
      steps := m.steps + 1
      journal := .dispatched i :: m.journal } := by
  rw [step_of_known fetched known, refused, attempt_error]
  rfl

/-- **The check of operands is complete.**  It passes just the operands that are written for
contents of all positions of the opcode.  Every operand that the opcode then asks for, in any
state, is there and of the kind that it asks for; the execution is the one that takes them one by
one, and raises no fault for their number or kind.  When operands are refused, it is for just
that, and of the state only the position, the order number and the count of steps have moved on,
with the note of the instruction in the journal. -/
theorem check_complete (op : Opcode) (i : Instruction) :
    (∀ xs, Operands.check op i = .ok xs ↔ xs.order = i.order ∧ i.operands = xs.toList) ∧
    (∀ xs, Operands.check op i = .ok xs → ∀ m : Machine,
      (m.course i.order op).Finds i.operands ∧
        (m.course i.order op).run op i.order i.operands = m.execute op xs ∧
        (m.execute op xs).Fails (·.cause.isMisfit = false)) ∧
    (∀ m : Machine, m.fetch? = some i → i.opcode? = some op →
      (∀ xs, Operands.check op i = .ok xs →
        m.step = ((m.dispatch i).course i.order op).run op i.order i.operands ∧
          m.step.Fails (·.cause.isMisfit = false)) ∧
      (∀ e, Operands.check op i = .error e → e.cause.isMisfit = true ∧ e.order = i.order ∧
        m.step = .failed e { m with
          position := m.position + 1
          order := i.order
          steps := m.steps + 1
          journal := .dispatched i :: m.journal })) := by
  refine ⟨fun xs => Operands.check_eq_ok_iff, ?_, ?_⟩
  · intro xs checked m
    have served := course_serves_of_check checked m
    exact ⟨served.finds, served.run_eq, execute_fits m op xs⟩
  · intro m fetched known
    refine ⟨fun xs checked => ?_, fun e refused => ?_⟩
    · obtain ⟨executed, taken⟩ := step_of_checked fetched known checked
      exact ⟨taken, executed ▸ execute_fits (m.dispatch i) op xs⟩
    · have named : e.order = i.order := by
        rcases Operands.check_eq_error refused with rfl | ⟨n, rfl⟩
        · rfl
        · rfl
      exact ⟨misfit_of_check refused, named, step_of_refused fetched known refused⟩

/-- A label stands where a value is asked for: it passes the check, and the sum is refused
for its type.  A variable in the place of a label does not pass, where a jump would not have
found the label. -/
theorem check_complete_label :
    let x : Place := ⟨.global, "x"⟩
    let sum : Instruction := ⟨.known .add, [.place x, .literal (.int 1), .label "far"], 4⟩
    let jump : Instruction := ⟨.known .jump, [.place x], 5⟩
    let start := new ⟨[sum, jump]⟩ (.ofText "") .reliable .reliable
    let m (position : Nat) : Machine := { start with position }
    ((m 0).course 4 .add).Finds sum.operands ∧ (m 0).step.Fails (·.cause.isMisfit = false) ∧
      (∃ k, (m 0).step = .failed ⟨4, .typeMismatch .add⟩ k) ∧
      ¬((m 1).course 5 .jump).Finds jump.operands ∧
      (m 1).step = .failed ⟨5, .operandKind .jump 1⟩ { m 1 with
        position := 2
        order := 5
        steps := 1
        journal := [.dispatched jump] } := by
  intro x sum jump start m
  have checked : Operands.check .add sum = .ok ⟨4, x, .literal (.int 1), .label "far", ()⟩ := rfl
  obtain ⟨-, found, steps⟩ := check_complete .add sum
  obtain ⟨passes, -⟩ := steps (m 0) rfl rfl
  obtain ⟨-, -, jumps⟩ := check_complete .jump jump
  obtain ⟨-, refuses⟩ := jumps (m 1) rfl rfl
  refine ⟨(found _ checked (m 0)).1, (passes _ checked).2, ⟨_, rfl⟩, ?_, (refuses _ rfl).2.2⟩
  rintro ⟨content, missing, -⟩
  cases missing

end Machine

end FrameCode
