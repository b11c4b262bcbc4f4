import FrameCode.Proofs.AlikeMemory
import FrameCode.Proofs.AlikeOperations
import FrameCode.Proofs.Execution

/-!
# Alike machines

Two machines are alike if they agree in everything but the stored forms of their strings, which
are well-formed, and the texts that their diagnostics have taken.  `Alike.execute` says that an
instruction with alike operands takes alike machines to alike machines, with the same halt or
the same fault.
-/

namespace FrameCode

/-! ## The relation -/

/-- The outlets refuse alike, and as many writes and flushes were tried; the texts may differ. -/
structure Outlet.Paired (o o' : Outlet) : Prop where
  refusesWrite : o.refusesWrite = o'.refusesWrite
  refusesFlush : o.refusesFlush = o'.refusesFlush
  tried : o.tried = o'.tried
  flushed : o.flushed = o'.flushed

/-- The events differ at most in the stored forms of an instruction. -/
inductive Event.Alike : Event → Event → Prop
  | same (e : Event) : Event.Alike e e
  | dispatched {i j : Instruction} : i.Alike j → Event.Alike (.dispatched i) (.dispatched j)

/-- The machines differ at most in the stored forms of their strings, which are well-formed, and
in the texts that their diagnostics have taken. -/
structure Machine.Alike (m k : Machine) : Prop where
  program : m.program.Alike k.program
  labels : m.labels = k.labels
  memory : m.memory.Alike k.memory
  stack : List.Forall₂ Value.Alike m.stack k.stack
  calls : m.calls = k.calls
  position : m.position = k.position
  order : m.order = k.order
  steps : m.steps = k.steps
  input : m.input = k.input
  out : m.out = k.out
  diagnostics : m.diagnostics.Paired k.diagnostics
  journal : List.Forall₂ Event.Alike m.journal k.journal

/-- The outcomes are of one kind, with the same halt or fault and alike machines. -/
inductive Outcome.Alike : Outcome → Outcome → Prop
  | next {m k : Machine} : m.Alike k → Outcome.Alike (.next m) (.next k)
  | halted (h : Halt) {m k : Machine} : m.Alike k → Outcome.Alike (.halted h m) (.halted h k)
  | failed (e : Fault) {m k : Machine} : m.Alike k → Outcome.Alike (.failed e m) (.failed e k)

/-- The contents of a position are alike. -/
def Slot.Content.Alike : (s : Slot) → s.Content → s.Content → Prop
  | .place, p, q => p = q
  | .symbol, x, y => Operand.Alike x y
  | .label, a, b => a = b
  | .type, a, b => a = b

/-- The contents of all positions are alike. -/
def Contents.Alike : (slots : List Slot) → Contents slots → Contents slots → Prop
  | [], _, _ => True
  | s :: slots, (x, xs), (y, ys) => Slot.Content.Alike s x y ∧ Contents.Alike slots xs ys

/-- The operands are alike, of instructions with the same order number. -/
structure Operands.Alike {op : Opcode} (xs ys : Operands op) : Prop where
  order : xs.order = ys.order
  contents : Contents.Alike op.signature xs.contents ys.contents

/-! ## Outlets -/

theorem Outlet.Paired.refl (o : Outlet) : o.Paired o := ⟨rfl, rfl, rfl, rfl⟩

/-- Paired outlets refuse a write alike, whatever is written. -/
theorem Outlet.Paired.write {o o' : Outlet} (paired : o.Paired o') (s s' : String) :
    (o.write s).1 = (o'.write s').1 ∧ (o.write s).2.Paired (o'.write s').2 := by
  obtain ⟨refusesWrite, refusesFlush, tried, flushed⟩ := paired
  unfold Outlet.write
  rw [refusesWrite, tried]
  split
  · exact ⟨rfl, rfl, refusesFlush, rfl, flushed⟩
  · exact ⟨rfl, rfl, refusesFlush, rfl, flushed⟩

/-- Paired outlets refuse a flush alike. -/
theorem Outlet.Paired.flush {o o' : Outlet} (paired : o.Paired o') :
    o.flush.1 = o'.flush.1 ∧ o.flush.2.Paired o'.flush.2 := by
  obtain ⟨refusesWrite, refusesFlush, tried, flushed⟩ := paired
  unfold Outlet.flush
  rw [refusesFlush, tried, flushed]
  exact ⟨rfl, refusesWrite, rfl, rfl, rfl⟩

/-! ## Operands -/

theorem Slot.fit?_alike (s : Slot) {x y : Operand} (alike : x.Alike y) :
    Option.Rel (Slot.Content.Alike s) (s.fit? x) (s.fit? y) := by
  cases s with
  | symbol => exact .some alike
  | place =>
    cases alike with
    | place p => exact .some rfl
    | _ => exact .none
  | label =>
    cases alike with
    | label name => exact .some rfl
    | _ => exact .none
  | type =>
    cases alike with
    | type name => exact .some rfl
    | _ => exact .none

namespace Operands

theorem fill_alike (order : Nat) (op : Opcode) (position : Nat) {slots : List Slot}
    {xs ys : List Operand} (alike : List.Forall₂ Operand.Alike xs ys)
    (size : xs.length = slots.length) (size' : ys.length = slots.length) :
    Agree (Contents.Alike slots) (fill order op position slots xs size)
      (fill order op position slots ys size') := by
  induction alike generalizing slots position with
  | nil =>
    cases slots with
    | nil => exact .ok trivial
    | cons => cases size
  | cons first _ ih =>
    cases slots with
    | nil => cases size
    | cons s slots =>
      unfold fill
      rcases rel_cases (s.fit?_alike first) with ⟨here, there⟩ | ⟨c, d, here, there, contents⟩
      · rw [here, there]
        exact .error _
      rw [here, there]
      dsimp only
      rcases (ih (position + 1) (Nat.succ.inj size) (Nat.succ.inj size')).cases with
        ⟨e, here, there⟩ | ⟨cs, ds, here, there, others⟩
      · rw [here, there]
        exact .error e
      · rw [here, there]
        exact .ok ⟨contents, others⟩

/-- The operands of alike instructions are checked alike. -/
theorem check_alike (op : Opcode) {i j : Instruction} (alike : i.Alike j) :
    Agree (@Alike op) (check op i) (check op j) := by
  have operands := alike.operands
  unfold check
  rw [alike.order]
  by_cases size : j.operands.length = op.signature.length
  · have size' := operands.length_eq.trans size
    rw [dif_pos size, dif_pos size']
    exact (fill_alike j.order op 1 operands size' size).map fun _ _ contents => ⟨rfl, contents⟩
  · have size' : i.operands.length ≠ op.signature.length :=
      fun eq => size (operands.length_eq.symm.trans eq)
    rw [dif_neg size, dif_neg size', operands.length_eq]
    exact .error _

end Operands

namespace Machine

variable {m k : Machine}

/-! ## Rules for the parts of an instruction -/

theorem Alike.fault (alike : m.Alike k) : m.fault = k.fault := by
  unfold Machine.fault
  rw [alike.order]

theorem Alike.memoryFault (alike : m.Alike k) : m.memoryFault = k.memoryFault := by
  unfold Machine.memoryFault
  rw [alike.fault]

/-- Alike machines that fail for one cause fail with the same fault. -/
theorem Alike.failed (alike : m.Alike k) (cause : Cause) :
    Outcome.Alike (.failed (m.fault cause) m) (.failed (k.fault cause) k) := by
  rw [alike.fault]
  exact .failed _ alike

section Rules

variable {α β : Type} {R : α → β → Prop}

theorem Alike.attempt (alike : m.Alike k) {r : Except Fault α} {r' : Except Fault β}
    (agree : Agree R r r') {go : α → Outcome} {go' : β → Outcome}
    (further : ∀ a b, R a b → (go a).Alike (go' b)) :
    (m.attempt r go).Alike (k.attempt r' go') := by
  cases agree with
  | ok rel => exact further _ _ rel
  | error e => exact .failed e alike

theorem Alike.access (alike : m.Alike k) {r : Except MemoryError α} {r' : Except MemoryError β}
    (agree : Agree R r r') {go : α → Outcome} {go' : β → Outcome}
    (further : ∀ a b, R a b → (go a).Alike (go' b)) :
    (m.access r go).Alike (k.access r' go') := by
  unfold Machine.access
  rw [alike.memoryFault]
  exact alike.attempt (agree.mapError k.memoryFault) further

end Rules

theorem Alike.update (alike : m.Alike k) {done done' : Except MemoryError Unit × Memory}
    (both : Memory.DoneAlike done done') : (m.update done).Alike (k.update done') := by
  obtain ⟨result, memory⟩ := done
  obtain ⟨result', memory'⟩ := done'
  obtain ⟨rfl, memories⟩ : result = result' ∧ memory.Alike memory' := ⟨both.result, both.memory⟩
  have moved : Machine.Alike { m with memory } { k with memory := memory' } :=
    { alike with memory := memories }
  cases result with
  | ok => exact .next moved
  | error e => exact moved.failed (.memory e)

theorem Alike.record (alike : m.Alike k) {e e' : Event} (events : e.Alike e') :
    (m.record e).Alike (k.record e') :=
  { alike with journal := .cons events alike.journal }

theorem Alike.symbol (alike : m.Alike k) (order : Nat) (op : Opcode) {x y : Operand}
    (operands : x.Alike y) : Agree Value.Alike (m.symbol order op x) (k.symbol order op y) := by
  cases operands with
  | literal values => exact .ok values
  | place p =>
    rw [Machine.symbol, Machine.symbol, alike.memoryFault]
    exact (alike.memory.value p).mapError k.memoryFault
  | label => exact .error _
  | type => exact .error _

theorem Alike.content (alike : m.Alike k) (order : Nat) (op : Opcode) {x y : Operand}
    (operands : x.Alike y) :
    Agree (Option.Rel Value.Alike) (m.content order op x) (k.content order op y) := by
  cases operands with
  | literal values => exact .ok (.some values)
  | place p =>
    rw [Machine.content, Machine.content, alike.memoryFault]
    exact ((alike.memory.read p).map fun _ _ cells => cells.content).mapError k.memoryFault
  | label => exact .error _
  | type => exact .error _

theorem Alike.target (alike : m.Alike k) {name name' : String} (same : name = name') :
    Agree Eq (m.target name) (k.target name') :=
  .of_eq (by rw [Machine.target, Machine.target, alike.labels, alike.fault, same])

theorem Alike.store (alike : m.Alike k) {p q : Place} (same : p = q) {v w : Value}
    (values : v.Alike w) : (m.store p v).Alike (k.store q w) := by
  subst same
  exact alike.update (alike.memory.write p values)

/-! ## Instructions -/

section Instructions

variable {order : Nat} {op : Opcode} {p q : Place} {x x' y y' : Operand}

theorem Alike.unary (alike : m.Alike k) {f : Value → Except Fault Value}
    (agree : ∀ {a a'}, a.Alike a' → Agree Value.Alike (f a) (f a')) (same : p = q)
    (hx : x.Alike x') : (m.unary order op f p x).Alike (k.unary order op f q x') :=
  alike.attempt (alike.symbol order op hx) fun _ _ ha => alike.attempt (agree ha) fun _ _ hv =>
    alike.store same hv

theorem Alike.binary (alike : m.Alike k) {f : Value → Value → Except Fault Value}
    (agree : ∀ {a a' b b'}, a.Alike a' → b.Alike b' → Agree Value.Alike (f a b) (f a' b'))
    (same : p = q) (hx : x.Alike x') (hy : y.Alike y') :
    (m.binary order op f p x y).Alike (k.binary order op f q x' y') :=
  alike.attempt (alike.symbol order op hx) fun _ _ ha =>
    alike.attempt (alike.symbol order op hy) fun _ _ hb =>
      alike.attempt (agree ha hb) fun _ _ hv => alike.store same hv

theorem Alike.setChar (alike : m.Alike k) (same : p = q) (hx : x.Alike x') (hy : y.Alike y') :
    (m.setChar order p x y).Alike (k.setChar order q x' y') := by
  subst same
  exact alike.access (alike.memory.value p) fun _ _ ha =>
    alike.attempt (alike.symbol order .setchar hx) fun _ _ hb =>
      alike.attempt (alike.symbol order .setchar hy) fun _ _ hc =>
        alike.attempt (Operation.setChar_alike ha hb hc) fun _ _ hv => alike.store rfl hv

theorem Alike.jumpIf (alike : m.Alike k) (wanted : Bool) {label label' : String}
    (same : label = label') (hx : x.Alike x') (hy : y.Alike y') :
    (m.jumpIf order op wanted label x y).Alike (k.jumpIf order op wanted label' x' y') := by
  refine alike.attempt (alike.target same) fun position _ eq =>
    alike.attempt (alike.symbol order op hx) fun a a' ha =>
      alike.attempt (alike.symbol order op hy) fun b b' hb =>
        alike.attempt (.of_eq (Operation.jumpEquals_eq op ha hb)) fun equal _ eq' => ?_
  subst eq eq'
  by_cases jumps : equal = wanted
  · rw [if_pos jumps, if_pos jumps]
    exact .next { alike with position := rfl }
  · rw [if_neg jumps, if_neg jumps]
    exact .next alike

/-- The next line is the same for both, and they go on alike. -/
theorem Alike.readLine (alike : m.Alike k) :
    m.readLine.1 = k.readLine.1 ∧ m.readLine.2.Alike k.readLine.2 := by
  unfold Machine.readLine
  rw [alike.input]
  have moved : Machine.Alike { m with input := k.input.next.2 }
      { k with input := k.input.next.2 } :=
    { alike with input := rfl }
  dsimp only
  split
  · exact ⟨rfl, moved.record (.same _)⟩
  · exact ⟨rfl, moved⟩

theorem Alike.read (alike : m.Alike k) (same : p = q) {type type' : String}
    (named : type = type') :
    (m.read p type).Alike (k.read q type') := by
  subst named
  obtain ⟨line, moved⟩ := alike.readLine
  unfold Machine.read
  split
  · exact moved.store same (line ▸ .int _)
  · exact moved.store same (line ▸ .bool _)
  · exact moved.store same (line ▸ Value.alike_ofChars _)
  · exact alike.failed _
  · exact alike.failed _

theorem Alike.write (alike : m.Alike k) (hx : x.Alike x') :
    (m.write order x).Alike (k.write order x') := by
  refine alike.attempt (alike.symbol order .write hx) fun v w values => ?_
  rw [alike.out, values.output_eq]
  split
  · exact .next { alike with out := rfl }
  · rw [alike.fault]
    exact .failed _ { alike with out := rfl }

theorem Alike.dprint (alike : m.Alike k) (hx : x.Alike x') :
    (m.dprint order x).Alike (k.dprint order x') := by
  refine alike.attempt (alike.symbol order .dprint hx) fun v w values => ?_
  have written := alike.diagnostics.write v.output w.output
  generalize m.diagnostics.write v.output = answer at written ⊢
  generalize k.diagnostics.write w.output = answer' at written ⊢
  obtain ⟨refusal, o⟩ := answer
  obtain ⟨refusal', o'⟩ := answer'
  obtain ⟨rfl, paired⟩ : refusal = refusal' ∧ o.Paired o' := written
  cases refusal with
  | none => exact .next { alike with diagnostics := paired }
  | some reason =>
    rw [alike.fault]
    exact .failed _ { alike with diagnostics := paired }

/-- The dumps may differ, but they are refused alike. -/
theorem Alike.writeDump (alike : m.Alike k) : m.writeDump.Alike k.writeDump := by
  have written := alike.diagnostics.write m.dump k.dump
  unfold Machine.writeDump
  generalize m.diagnostics.write m.dump = answer at written ⊢
  generalize k.diagnostics.write k.dump = answer' at written ⊢
  obtain ⟨refusal, o⟩ := answer
  obtain ⟨refusal', o'⟩ := answer'
  obtain ⟨rfl, paired⟩ : refusal = refusal' ∧ o.Paired o' := written
  cases refusal with
  | none => exact { alike with diagnostics := paired }
  | some reason =>
    have moved : Machine.Alike { m with diagnostics := o } { k with diagnostics := o' } :=
      { alike with diagnostics := paired }
    exact moved.record (.same _)

theorem Alike.ret (alike : m.Alike k) (xs ys : Operands .ret) :
    (m.execute .ret xs).Alike (k.execute .ret ys) := by
  cases pushed : k.calls with
  | nil =>
    rw [execute_ret_nil pushed, execute_ret_nil (alike.calls.trans pushed)]
    exact alike.failed _
  | cons position calls =>
    rw [execute_ret_cons pushed, execute_ret_cons (alike.calls.trans pushed)]
    exact .next { alike with position := rfl, calls := rfl }

theorem Alike.pops (alike : m.Alike k) (same : p = q) :
    (m.execute .pops ⟨order, p, ()⟩).Alike (k.execute .pops ⟨order, q, ()⟩) := by
  have values := alike.stack
  cases here : m.stack with
  | nil =>
    rw [here] at values
    have there := List.forall₂_nil_left_iff.1 values
    rw [execute_pops_nil here, execute_pops_nil there]
    exact alike.failed _
  | cons v vs =>
    rw [here] at values
    obtain ⟨w, ws, first, rest, there⟩ := List.forall₂_cons_left_iff.1 values
    rw [execute_pops_cons here, execute_pops_cons there]
    have popped : Machine.Alike { m with stack := vs } { k with stack := ws } :=
      { alike with stack := rest }
    exact popped.store same first

end Instructions

/-- An opcode with alike operands takes alike machines to alike outcomes. -/
theorem Alike.execute (alike : m.Alike k) (op : Opcode) {xs ys : Operands op}
    (operands : xs.Alike ys) : (m.execute op xs).Alike (k.execute op ys) := by
  obtain ⟨order, xs⟩ := xs
  obtain ⟨order', ys⟩ := ys
  obtain ⟨same, operands⟩ := operands
  obtain rfl : order = order' := same
  cases op with
  | move =>
    exact alike.attempt (alike.symbol order .move operands.2.1) fun _ _ values =>
      alike.store operands.1 values
  | createFrame => exact .next { alike with memory := alike.memory.createFrame }
  | pushFrame => exact alike.update alike.memory.pushFrame
  | popFrame => exact alike.update alike.memory.popFrame
  | defvar =>
    obtain ⟨p, ⟨⟩⟩ := xs
    obtain ⟨q, ⟨⟩⟩ := ys
    obtain ⟨rfl, -⟩ := operands
    exact alike.update (alike.memory.define p)
  | call =>
    refine alike.attempt (alike.target operands.1) fun position _ same => .next ?_
    exact { alike with position := same, calls := by rw [alike.position, alike.calls] }
  | ret => exact alike.ret _ _
  | jump =>
    exact alike.attempt (alike.target operands.1) fun _ _ same =>
      .next { alike with position := same }
  | jumpIfEq => exact alike.jumpIf true operands.1 operands.2.1 operands.2.2.1
  | jumpIfNeq => exact alike.jumpIf false operands.1 operands.2.1 operands.2.2.1
  | label => exact .next alike
  | pushs =>
    exact alike.attempt (alike.symbol order .pushs operands.1) fun _ _ values =>
      .next { alike with stack := .cons values alike.stack }
  | pops => exact alike.pops operands.1
  | read => exact alike.read operands.1 operands.2.1
  | write => exact alike.write operands.1
  | dprint => exact alike.dprint operands.1
  | «break» => exact .next alike.writeDump
  | setchar => exact alike.setChar operands.1 operands.2.1 operands.2.2.1
  | type =>
    exact alike.attempt (alike.content order .type operands.2.1) fun _ _ contents =>
      alike.store operands.1 (Operation.typeName_alike contents)
  | exit =>
    refine alike.attempt (alike.symbol order .exit operands.1) fun _ _ values =>
      alike.attempt (.of_eq (Operation.exitCode_eq values)) fun _ _ same => ?_
    exact same ▸ .halted _ alike
  | not => exact alike.unary Operation.not_alike operands.1 operands.2.1
  | int2char => exact alike.unary Operation.charOfCode_alike operands.1 operands.2.1
  | strlen => exact alike.unary Operation.length_alike operands.1 operands.2.1
  | add | sub | mul | idiv =>
    exact alike.binary (Operation.arithmetic_alike _) operands.1 operands.2.1 operands.2.2.1
  | and | or =>
    exact alike.binary (Operation.logic_alike _) operands.1 operands.2.1 operands.2.2.1
  | lt | gt =>
    refine alike.binary (fun ha hb => ?_) operands.1 operands.2.1 operands.2.2.1
    exact (Agree.of_eq (Operation.compare_eq _ ha hb)).map fun _ _ same => same ▸ .bool _
  | eq =>
    refine alike.binary (fun ha hb => ?_) operands.1 operands.2.1 operands.2.2.1
    exact (Agree.of_eq (Operation.equals_eq ha hb)).map fun _ _ same => same ▸ .bool _
  | stri2int => exact alike.binary Operation.codeAt_alike operands.1 operands.2.1 operands.2.2.1
  | getchar => exact alike.binary Operation.charAt_alike operands.1 operands.2.1 operands.2.2.1
  | concat => exact alike.binary Operation.concat_alike operands.1 operands.2.1 operands.2.2.1

end Machine

end FrameCode
