import FrameCode.Proofs.CheckedOperands
import FrameCode.Proofs.Diagnostics
import FrameCode.Proofs.Results

/-!
# Corresponding machines

Two machines correspond if they have the same memory, data stack, input and output, and the
positions of the one are those of the other under a map: the position itself, those of the calls,
and those of the labels.  Their programs can be listed, numbered or spaced in different ways.
What their diagnostics have in common is a parameter, a relation that equal writes keep.

They are in step if the order numbers of their instructions are under a map too.  `InStep.execute`
says that an instruction takes machines in step to machines in step, with the same halt or with a
fault for the same cause, whose number is under the map.  `BREAK` is the exception, since it
writes what the machines need not have in common.
-/

namespace FrameCode

/-! ## Relations of outcomes and outlets -/

/-- The fault with its order number under a map. -/
def Fault.renumber (f : Nat → Nat) (e : Fault) : Fault := ⟨f e.order, e.cause⟩

/-- The error with the order number of the failing instruction under a map. -/
def RunError.renumber (f : Nat → Nat) : RunError → RunError
  | unordered e => unordered e
  | fault e => fault (e.renumber f)

theorem RunError.mapError_renumber_id {α : Type} (result : Except RunError α) :
    result.mapError (renumber id) = result := by
  cases result with
  | ok a => rfl
  | error e => cases e <;> rfl

/-- The outcomes are of one kind, with the same halt or with faults that differ in their order
numbers, and with related machines. -/
inductive Outcome.Rel (f : Nat → Nat) (R : Machine → Machine → Prop) : Outcome → Outcome → Prop
  | next {m k : Machine} : R m k → Outcome.Rel f R (.next m) (.next k)
  | halted (h : Halt) {m k : Machine} : R m k → Outcome.Rel f R (.halted h m) (.halted h k)
  | failed (e : Fault) {m k : Machine} :
    R m k → Outcome.Rel f R (.failed e m) (.failed (e.renumber f) k)

/-- A relation that no event in a journal disturbs, and no flush of both machines, holds of what
is left at the end of a run too. -/
theorem Machine.finish_related {R : Machine → Machine → Prop} {m k : Machine}
    (left : ∀ m k e, R m k → R (m.record e) k) (right : ∀ m k e, R m k → R m (k.record e))
    (flushes : ∀ m k, R m k → R m.flushed k.flushed) (flushed : m.flush.1 = .ok ())
    (flushed' : k.flush.1 = .ok ()) (related : R m k) (ending ending' : Except Fault Halt) :
    R (m.finish ending).2 (k.finish ending').2 := by
  have here : R (m.finish ending).2 k.flushed := by
    rcases finish_snd_of_flushed flushed ending with same | ⟨e, same⟩ <;> rw [same]
    · exact flushes m k related
    · exact left _ _ e (flushes m k related)
  rcases finish_snd_of_flushed flushed' ending' with same | ⟨e, same⟩ <;> rw [same]
  · exact here
  · exact right _ _ e here

namespace Outcome.Rel

variable {f : Nat → Nat} {R R' : Machine → Machine → Prop} {o o' : Outcome}

/-- The relation can be changed to another that holds of the machines which the outcomes leave. -/
theorem imp_machine (related : Outcome.Rel f R o o')
    (leaves : R o.machine o'.machine → R' o.machine o'.machine) : Outcome.Rel f R' o o' := by
  cases related with
  | next rel => exact .next (leaves rel)
  | halted h rel => exact .halted h (leaves rel)
  | failed e rel => exact .failed e (leaves rel)

/-- Runs in lockstep: what one step keeps, any number of steps keeps. -/
theorem after {m k : Machine} (step : ∀ m k, R m k → Outcome.Rel f R m.step k.step)
    (related : R m k) (n : Nat) : Outcome.Rel f R (m.after n) (k.after n) := by
  induction n with
  | zero => exact .next related
  | succ n ih =>
    show Outcome.Rel f R (m.after n).resume (k.after n).resume
    generalize m.after n = o at ih ⊢
    generalize k.after n = o' at ih ⊢
    cases ih with
    | next rel => exact step _ _ rel
    | halted h rel => exact .halted h rel
    | failed e rel => exact .failed e rel

theorem isSome_result? (related : Outcome.Rel f R o o') :
    o'.result?.isSome = o.result?.isSome := by
  cases related <;> rfl

theorem exists_of_next {m : Machine} (related : Outcome.Rel f R (.next m) o') :
    ∃ k, o' = .next k ∧ R m k := by
  cases related with
  | next rel => exact ⟨_, rfl, rel⟩

theorem exists_of_next_right {k : Machine} (related : Outcome.Rel f R o (.next k)) :
    ∃ m, o = .next m ∧ R m k := by
  cases related with
  | next rel => exact ⟨_, rfl, rel⟩

/-- Flushed runs with related outcomes end alike. -/
theorem result? (related : Outcome.Rel f R o o')
    (left : ∀ m k e, R m k → R (m.record e) k) (right : ∀ m k e, R m k → R m (k.record e))
    (flushes : ∀ m k, R m k → R m.flushed k.flushed) (flushed : o.machine.flush.1 = .ok ())
    (flushed' : o'.machine.flush.1 = .ok ()) :
    Option.Rel (fun r r' => r'.1 = r.1.mapError (.renumber f) ∧ R r.2 r'.2)
      o.result? o'.result? := by
  cases related with
  | next rel => exact .none
  | @halted h m k rel =>
    have here : (m.finish (.ok h)).1 = .ok h := Machine.finish_of_flushed flushed _
    have there : (k.finish (.ok h)).1 = .ok h := Machine.finish_of_flushed flushed' _
    exact .some ⟨by rw [here, there]; rfl,
      Machine.finish_related left right flushes flushed flushed' rel _ _⟩
  | @failed e m k rel =>
    have here : (m.finish (.error e)).1 = .error (.fault e) := Machine.finish_of_flushed flushed _
    have there : (k.finish (.error (e.renumber f))).1 = .error (.fault (e.renumber f)) :=
      Machine.finish_of_flushed flushed' _
    exact .some ⟨by rw [here, there]; rfl,
      Machine.finish_related left right flushes flushed flushed' rel _ _⟩

end Outcome.Rel

/-! ## Operations under new numbers -/

namespace Operation

variable (f : Nat → Nat) {order : Nat} {op : Opcode} {a b c : Value}

theorem arithmetic_renumber :
    arithmetic (f order) op a b = (arithmetic order op a b).mapError (.renumber f) := by
  unfold arithmetic
  repeat' split
  all_goals rfl

theorem logic_renumber :
    logic (f order) op a b = (logic order op a b).mapError (.renumber f) := by
  unfold logic
  split <;> rfl

theorem not_renumber : not (f order) a = (not order a).mapError (.renumber f) := by
  cases a <;> rfl

theorem compare_renumber :
    compare (f order) op a b = (compare order op a b).mapError (.renumber f) := by
  unfold compare
  split <;> rfl

theorem equals_renumber : equals (f order) a b = (equals order a b).mapError (.renumber f) := by
  unfold equals
  split <;> rfl

theorem jumpEquals_renumber :
    jumpEquals (f order) op a b = (jumpEquals order op a b).mapError (.renumber f) := by
  unfold jumpEquals
  split <;> rfl

theorem charOfCode_renumber :
    charOfCode (f order) a = (charOfCode order a).mapError (.renumber f) := by
  unfold charOfCode
  repeat' split
  all_goals rfl

theorem focus_renumber :
    focus (f order) op a b = (focus order op a b).mapError (.renumber f) := by
  unfold focus
  split
  · dsimp only
    repeat' split
    all_goals rfl
  · rfl

theorem codeAt_renumber : codeAt (f order) a b = (codeAt order a b).mapError (.renumber f) := by
  rw [codeAt, codeAt, focus_renumber]
  cases focus order .stri2int a b <;> rfl

theorem charAt_renumber : charAt (f order) a b = (charAt order a b).mapError (.renumber f) := by
  rw [charAt, charAt, focus_renumber]
  cases focus order .getchar a b <;> rfl

theorem setChar_renumber :
    setChar (f order) a b c = (setChar order a b c).mapError (.renumber f) := by
  unfold setChar
  split
  · rw [focus_renumber]
    cases focus order .setchar a b with
    | error e => rfl
    | ok found =>
      simp only [Except.mapError]
      split <;> rfl
  · rfl

theorem concat_renumber : concat (f order) a b = (concat order a b).mapError (.renumber f) := by
  unfold concat
  split <;> rfl

theorem length_renumber : length (f order) a = (length order a).mapError (.renumber f) := by
  cases a <;> rfl

theorem exitCode_renumber :
    exitCode (f order) a = (exitCode order a).mapError (.renumber f) := by
  unfold exitCode
  repeat' split
  all_goals rfl

end Operation

/-! ## Operands under new numbers -/

namespace Operands

variable {f : Nat → Nat} {op : Opcode}

/-- The operands of the instruction with its order number under a map. -/
def renumber (f : Nat → Nat) (xs : Operands op) : Operands op := ⟨f xs.order, xs.contents⟩

theorem fill_renumber (f : Nat → Nat) (order position : Nat) {slots : List Slot}
    {xs : List Operand}
    (size : xs.length = slots.length) :
    fill (f order) op position slots xs size =
      (fill order op position slots xs size).mapError (.renumber f) := by
  induction slots generalizing xs position with
  | nil =>
    obtain rfl := List.length_eq_zero_iff.1 size
    rfl
  | cons s slots ih =>
    obtain ⟨x, rest, rfl⟩ := List.exists_cons_of_length_eq_add_one size
    unfold fill
    cases s.fit? x with
    | none => rfl
    | some c =>
      dsimp only
      rw [ih (position + 1) (Nat.succ.inj size)]
      cases fill order op (position + 1) slots rest (Nat.succ.inj size) <;> rfl

/-- Equal operands of instructions are checked alike. -/
theorem check_renumber {i j : Instruction} (order : j.order = f i.order)
    (operands : j.operands = i.operands) :
    check op j = ((check op i).map (renumber f)).mapError (.renumber f) := by
  unfold check
  rw [operands, order]
  split
  · next size =>
    rw [fill_renumber]
    cases fill i.order op 1 op.signature i.operands size <;> rfl
  · rfl

end Operands

/-- Related outlets refuse the same text alike and stay related, whatever it is. -/
def Outlet.Coupled (D : Outlet → Outlet → Prop) : Prop :=
  ∀ o o' s, D o o' → (o'.write s).1 = (o.write s).1 ∧ D (o.write s).2 (o'.write s).2

theorem Outlet.since_write_eq (o : Outlet) (s : String) :
    (o.write s).2.since o = if (o.write s).1.isSome then [] else [s] := by
  rw [since_write]
  unfold write
  cases o.refusesWrite o.tried <;> rfl

namespace Machine

/-- The machines agree, with positions under a map and related diagnostics. -/
structure Corresponds (φ : Nat → Nat) (D : Outlet → Outlet → Prop) (m k : Machine) : Prop where
  labels : ∀ name, k.labels.resolve? name = (m.labels.resolve? name).map φ
  memory : k.memory = m.memory
  stack : k.stack = m.stack
  calls : k.calls = m.calls.map φ
  position : k.position = φ m.position
  input : k.input = m.input
  out : k.out = m.out
  diagnostics : D m.diagnostics k.diagnostics

/-- The machines correspond, and they have fetched instructions whose order numbers are
under a map. -/
structure InStep (f φ : Nat → Nat) (D : Outlet → Outlet → Prop) (m k : Machine) : Prop
    extends m.Corresponds φ D k where
  order : k.order = f m.order

end Machine

/-- The outcomes of machines in step, which stay in step. -/
abbrev Outcome.InStep (f φ : Nat → Nat) (D : Outlet → Outlet → Prop) : Outcome → Outcome → Prop :=
  Outcome.Rel f (Machine.InStep f φ D)

namespace Machine.InStep

variable {f φ : Nat → Nat} {D : Outlet → Outlet → Prop} {m k : Machine}

/-! ## Rules for the parts of an instruction -/

section Rules

variable {α : Type} {go go' : α → Outcome}

theorem fault (both : m.InStep f φ D k) (cause : Cause) :
    k.fault cause = (m.fault cause).renumber f :=
  congrArg (Fault.mk · cause) both.order

theorem failed (both : m.InStep f φ D k) (cause : Cause) :
    Outcome.InStep f φ D (.failed (m.fault cause) m) (.failed (k.fault cause) k) := by
  rw [both.fault]
  exact .failed _ both

theorem attempt (both : m.InStep f φ D k) {r r' : Except Fault α}
    (same : r' = r.mapError (.renumber f)) (further : ∀ a, Outcome.InStep f φ D (go a) (go' a)) :
    Outcome.InStep f φ D (m.attempt r go) (k.attempt r' go') := by
  subst same
  cases r with
  | ok a => exact further a
  | error e => exact .failed e both

/-- What the memory answers is the same for both. -/
theorem mapError_memoryFault (both : m.InStep f φ D k) (r : Except MemoryError α) :
    r.mapError k.memoryFault = (r.mapError m.memoryFault).mapError (.renumber f) := by
  cases r with
  | ok a => rfl
  | error e => exact congrArg Except.error (both.fault _)

theorem access (both : m.InStep f φ D k) {r r' : Except MemoryError α} (same : r' = r)
    (further : ∀ a, Outcome.InStep f φ D (go a) (go' a)) :
    Outcome.InStep f φ D (m.access r go) (k.access r' go') :=
  both.attempt (same ▸ both.mapError_memoryFault r) further

theorem update (both : m.InStep f φ D k) {done done' : Except MemoryError Unit × Memory}
    (same : done' = done) : Outcome.InStep f φ D (m.update done) (k.update done') := by
  subst same
  obtain ⟨⟨e⟩ | ⟨⟨⟩⟩, memory⟩ := done'
  · have left : InStep f φ D { m with memory } { k with memory } := { both with memory := rfl }
    exact left.failed (.memory e)
  · exact .next { both with memory := rfl }

/-- A label is resolved to a position and to its image. -/
theorem attempt_target (both : m.InStep f φ D k) (name : String) {go go' : Nat → Outcome}
    (further : ∀ c, Outcome.InStep f φ D (go c) (go' (φ c))) :
    Outcome.InStep f φ D (m.attempt (m.target name) go) (k.attempt (k.target name) go') := by
  unfold target
  rw [both.labels]
  cases m.labels.resolve? name with
  | none => exact both.failed _
  | some c => exact further c

end Rules

theorem record (both : m.InStep f φ D k) (e e' : Event) :
    (m.record e).InStep f φ D (k.record e') :=
  { both with }

theorem symbol (both : m.InStep f φ D k) (order : Nat) (op : Opcode) (x : Operand) :
    k.symbol (f order) op x = (m.symbol order op x).mapError (.renumber f) := by
  cases x with
  | place p =>
    rw [Machine.symbol, Machine.symbol, both.memory]
    exact both.mapError_memoryFault _
  | _ => rfl

theorem content (both : m.InStep f φ D k) (order : Nat) (op : Opcode) (x : Operand) :
    k.content (f order) op x = (m.content order op x).mapError (.renumber f) := by
  cases x with
  | place p =>
    rw [Machine.content, Machine.content, both.memory]
    exact both.mapError_memoryFault _
  | _ => rfl

theorem store (both : m.InStep f φ D k) (p : Place) (v : Value) :
    Outcome.InStep f φ D (m.store p v) (k.store p v) :=
  both.update (by rw [both.memory])

/-! ## Instructions -/

section Instructions

variable {op : Opcode} {order : Nat}

theorem unary (both : m.InStep f φ D k) {g g' : Value → Except Fault Value}
    (same : ∀ a, g' a = (g a).mapError (.renumber f)) (p : Place) (x : Operand) :
    Outcome.InStep f φ D (m.unary order op g p x) (k.unary (f order) op g' p x) :=
  both.attempt (both.symbol order op x) fun a => both.attempt (same a) fun v => both.store p v

theorem binary (both : m.InStep f φ D k) {g g' : Value → Value → Except Fault Value}
    (same : ∀ a b, g' a b = (g a b).mapError (.renumber f)) (p : Place) (x y : Operand) :
    Outcome.InStep f φ D (m.binary order op g p x y) (k.binary (f order) op g' p x y) :=
  both.attempt (both.symbol order op x) fun a => both.attempt (both.symbol order op y) fun b =>
    both.attempt (same a b) fun v => both.store p v

theorem setChar (both : m.InStep f φ D k) (p : Place) (x y : Operand) :
    Outcome.InStep f φ D (m.setChar order p x y) (k.setChar (f order) p x y) :=
  both.access (by rw [both.memory]) fun _ => both.attempt (both.symbol order _ x) fun _ =>
    both.attempt (both.symbol order _ y) fun _ =>
      both.attempt (Operation.setChar_renumber f) fun v => both.store p v

theorem jumpIf (both : m.InStep f φ D k) (wanted : Bool) (label : String) (x y : Operand) :
    Outcome.InStep f φ D (m.jumpIf order op wanted label x y)
      (k.jumpIf (f order) op wanted label x y) := by
  refine both.attempt_target label fun c => both.attempt (both.symbol order op x) fun _ =>
    both.attempt (both.symbol order op y) fun _ =>
      both.attempt (Operation.jumpEquals_renumber f) fun equal => ?_
  by_cases jumps : equal = wanted
  · rw [if_pos jumps, if_pos jumps]
    exact .next { both with position := rfl }
  · rw [if_neg jumps, if_neg jumps]
    exact .next both

/-- Both take the same line. -/
theorem readLine (both : m.InStep f φ D k) : m.readLine.2.InStep f φ D k.readLine.2 := by
  unfold Machine.readLine
  rw [both.input]
  have moved : InStep f φ D { m with input := m.input.next.2 }
      { k with input := m.input.next.2 } :=
    { both with input := rfl }
  dsimp only
  split
  · exact moved.record _ _
  · exact moved

theorem read (both : m.InStep f φ D k) (p : Place) (type : String) :
    Outcome.InStep f φ D (m.read p type) (k.read p type) := by
  rw [read_eq, read_eq, both.input]
  split
  · exact both.readLine.store p _
  · exact both.failed _

theorem write (both : m.InStep f φ D k) (x : Operand) :
    Outcome.InStep f φ D (m.write order x) (k.write (f order) x) := by
  refine both.attempt (both.symbol order .write x) fun v => ?_
  rw [both.out]
  split
  · exact .next { both with out := rfl }
  · next out _ =>
    have left : InStep f φ D { m with out } { k with out } := { both with out := rfl }
    exact left.failed _

theorem dprint (coupled : Outlet.Coupled D) (both : m.InStep f φ D k) (x : Operand) :
    Outcome.InStep f φ D (m.dprint order x) (k.dprint (f order) x) := by
  refine both.attempt (both.symbol order .dprint x) fun v => ?_
  have written := coupled _ _ v.output both.diagnostics
  generalize m.diagnostics.write v.output = answer at written ⊢
  generalize k.diagnostics.write v.output = answer' at written ⊢
  obtain ⟨refusal, o⟩ := answer
  obtain ⟨refusal', o'⟩ := answer'
  obtain ⟨rfl, related⟩ : refusal' = refusal ∧ D o o' := written
  have left : InStep f φ D { m with diagnostics := o } { k with diagnostics := o' } :=
    { both with diagnostics := related }
  cases refusal' with
  | none => exact .next left
  | some reason => exact left.failed _

theorem ret (both : m.InStep f φ D k) (xs ys : Operands .ret) :
    Outcome.InStep f φ D (m.execute .ret xs) (k.execute .ret ys) := by
  cases pushed : m.calls with
  | nil =>
    have there : k.calls = [] := by rw [both.calls, pushed]; rfl
    rw [execute_ret_nil pushed, execute_ret_nil there]
    exact both.failed _
  | cons c calls =>
    have there : k.calls = φ c :: calls.map φ := by rw [both.calls, pushed]; rfl
    rw [execute_ret_cons pushed, execute_ret_cons there]
    exact .next { both with position := rfl, calls := rfl }

theorem pops (both : m.InStep f φ D k) (order' : Nat) (p : Place) :
    Outcome.InStep f φ D (m.execute .pops ⟨order, p, ()⟩) (k.execute .pops ⟨order', p, ()⟩) := by
  cases pushed : m.stack with
  | nil =>
    rw [execute_pops_nil pushed, execute_pops_nil (both.stack.trans pushed)]
    exact both.failed _
  | cons v stack =>
    rw [execute_pops_cons pushed, execute_pops_cons (both.stack.trans pushed)]
    have popped : InStep f φ D { m with stack } { k with stack } := { both with stack := rfl }
    exact popped.store p v

end Instructions

/-- An opcode other than `BREAK` takes machines in step to outcomes in step. -/
theorem execute (coupled : Outlet.Coupled D) (both : m.InStep f φ D k) {op : Opcode}
    (other : op ≠ .break) (xs : Operands op) :
    Outcome.InStep f φ D (m.execute op xs) (k.execute op (xs.renumber f)) := by
  cases op with
  | «break» => exact absurd rfl other
  | move => exact both.attempt (both.symbol _ .move _) fun v => both.store _ v
  | type => exact both.attempt (both.content _ .type _) fun v => both.store _ _
  | createFrame =>
    show Outcome.InStep f φ D (.next _) (.next { k with memory := k.memory.createFrame })
    rw [both.memory]
    exact .next { both with memory := rfl }
  | pushFrame | popFrame | defvar => exact both.update (by rw [both.memory])
  | call =>
    refine both.attempt_target _ fun c => .next ?_
    exact { both with
      position := rfl
      calls := by rw [List.map_cons, both.position, both.calls] }
  | jump => exact both.attempt_target _ fun c => .next { both with position := rfl }
  | jumpIfEq => exact both.jumpIf _ _ _ _
  | jumpIfNeq => exact both.jumpIf _ _ _ _
  | ret => exact both.ret _ _
  | label => exact .next both
  | pushs =>
    refine both.attempt (both.symbol _ .pushs _) fun v => .next ?_
    exact { both with stack := congrArg (v :: ·) both.stack }
  | pops => exact both.pops _ _
  | read => exact both.read _ _
  | write => exact both.write _
  | dprint => exact both.dprint coupled _
  | setchar => exact both.setChar _ _ _
  | exit =>
    exact both.attempt (both.symbol _ .exit _) fun v =>
      both.attempt (Operation.exitCode_renumber f) fun code => .halted _ both
  | not => exact both.unary (fun _ => Operation.not_renumber f) _ _
  | int2char => exact both.unary (fun _ => Operation.charOfCode_renumber f) _ _
  | strlen => exact both.unary (fun _ => Operation.length_renumber f) _ _
  | add | sub | mul | idiv => exact both.binary (fun _ _ => Operation.arithmetic_renumber f) _ _ _
  | and | or => exact both.binary (fun _ _ => Operation.logic_renumber f) _ _ _
  | lt | gt =>
    refine both.binary (fun a b => ?_) _ _ _
    rw [Operation.compare_renumber]
    exact (mapError_map ..).symm
  | eq =>
    refine both.binary (fun a b => ?_) _ _ _
    rw [Operation.equals_renumber]
    exact (mapError_map ..).symm
  | stri2int => exact both.binary (fun _ _ => Operation.codeAt_renumber f) _ _ _
  | getchar => exact both.binary (fun _ _ => Operation.charAt_renumber f) _ _ _
  | concat => exact both.binary (fun _ _ => Operation.concat_renumber f) _ _ _

/-- What an opcode other than `BREAK` adds to the diagnostics is the same. -/
theorem since_execute (coupled : Outlet.Coupled D) (both : m.InStep f φ D k) {op : Opcode}
    (other : op ≠ .break) (xs : Operands op) :
    (k.execute op (xs.renumber f)).machine.diagnostics.since k.diagnostics =
      (m.execute op xs).machine.diagnostics.since m.diagnostics := by
  by_cases listed : .diagnostics ∈ op.changes
  · obtain rfl : op = .dprint := (Opcode.eq_of_mem_changes listed).resolve_right other
    obtain ⟨order, x, ⟨⟩⟩ := xs
    show (k.dprint (f order) x).machine.diagnostics.since _ =
      (m.dprint order x).machine.diagnostics.since _
    have there := both.symbol order .dprint x
    cases here : m.symbol order .dprint x with
    | error e =>
      rw [here] at there
      rw [Machine.dprint, Machine.dprint, here, there]
      exact (Outlet.since_self k.diagnostics).trans (Outlet.since_self m.diagnostics).symm
    | ok v =>
      rw [here] at there
      rw [dprint_machine here, dprint_machine there, Outlet.since_write_eq, Outlet.since_write_eq,
        (coupled _ _ v.output both.diagnostics).1]
  · rw [(execute_sameOutside m op xs).diagnostics listed,
      (execute_sameOutside k op _).diagnostics listed, Outlet.since_self, Outlet.since_self]

/-! ## Steps -/

/-- A step of both machines at instructions with the same opcode and operands, which are no dump:
the machines correspond after it if they do once the instructions have been taken. -/
theorem step_dispatched (coupled : Outlet.Coupled D) {i j : Instruction} {op : Opcode}
    (here : m.fetch? = some i) (there : k.fetch? = some j) (known : i.opcode? = some op)
    (named : j.opcode? = some op) (operands : j.operands = i.operands)
    (both : (m.dispatch i).InStep f φ D (k.dispatch j)) (dumps : op = .break → i.operands ≠ []) :
    Outcome.InStep f φ D m.step k.step ∧ k.noted = m.noted := by
  have checked' : Operands.check op j = _ := Operands.check_renumber (f := f) both.order operands
  cases checked : Operands.check op i with
  | error e =>
    rw [checked] at checked'
    rw [noted_of_refused here known checked, noted_of_refused there named checked',
      step_of_known here known, step_of_known there named, checked, checked']
    exact ⟨.failed e both, rfl⟩
  | ok xs =>
    rw [checked] at checked'
    -- A dump that passes its check has no operands, and such a dump is excluded.
    have other : op ≠ .break := by
      rintro rfl
      exact dumps rfl (Operands.toList_of_check checked)
    rw [noted_eq here known, noted_eq there named, step_of_known here known,
      step_of_known there named, checked, checked']
    exact ⟨both.execute coupled other xs,
      congrArg (List.map (Note.mk op)) (both.since_execute coupled other xs)⟩

end Machine.InStep

end FrameCode
