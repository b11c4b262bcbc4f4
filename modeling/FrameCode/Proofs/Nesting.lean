import FrameCode.Proofs.Control
import Mathlib.Data.List.Infix

/-!
# Nesting

Both stacks nest.  What a `CALL` or a `PUSHS` has put on its stack stays there, on top of all that
was there before, until it is taken off: by a `RETURN` as the position to go on from, or by a
`POPS` as the value to store.  It does not matter what happens in between, be it calls, jumps,
frames or pushes.

A step moves a stack by one element at most.  So a stack gets below an element only by a step
that takes just this element off, and `step_directs` and `step_exchanges` say which
instructions do that.
-/

namespace FrameCode

/-! ## Moves of a stack -/

/-- A stack is left alone, or one element is put on it or taken off. -/
inductive StackMove {α : Type} : List α → List α → Prop
  | keep (s : List α) : StackMove s s
  | push (a : α) (s : List α) : StackMove s (a :: s)
  | pop (a : α) (s : List α) : StackMove (a :: s) s

/-- What is at the bottom of a stack stays there, unless the move takes off the top of it. -/
theorem StackMove.keeps_or_pops {α : Type} {s s' bottom : List α} {a : α} (move : StackMove s s')
    (kept : a :: bottom <:+ s) : a :: bottom <:+ s' ∨ s = a :: bottom ∧ s' = bottom := by
  cases move with
  | keep => exact .inl kept
  | push b => exact .inl (kept.trans (List.suffix_cons b s))
  | pop b =>
    rcases List.suffix_cons_iff.1 kept with whole | below
    · obtain ⟨rfl, rfl⟩ := List.cons.inj whole
      exact .inr ⟨rfl, rfl⟩
    · exact .inl below

namespace Machine

variable {α : Type} {m k : Machine} {i : Instruction}

/-- In all states of a run from one number of steps to another, a list is at the bottom
of a stack. -/
def Keeps (m : Machine) (stack : Machine → List α) (bottom : List α) (n l : Nat) : Prop :=
  ∀ e, n ≤ e → e ≤ l → bottom <:+ stack (m.after e).machine

theorem Keeps.succ {stack : Machine → List α} {bottom : List α} {n l : Nat}
    (keeps : m.Keeps stack bottom n l) (next : bottom <:+ stack (m.after (l + 1)).machine) :
    m.Keeps stack bottom n (l + 1) := by
  intro e low high
  rcases Nat.le_succ_iff.1 high with before | rfl
  · exact keeps e low before
  · exact next

theorem after_moves {stack : Machine → List α}
    (moves : ∀ k : Machine, StackMove (stack k) (stack k.step.machine)) (n : Nat) :
    StackMove (stack (m.after n).machine) (stack (m.after (n + 1)).machine) := by
  rw [after]
  cases m.after n with
  | next k => exact moves k
  | halted h k | failed e k => exact .keep _

/-- An element stays on a stack with all that is below it, unless there is a first step that takes
just this element off.  The induction is on the number of steps since it was on top. -/
theorem keeps_or_pops {stack : Machine → List α}
    (moves : ∀ k : Machine, StackMove (stack k) (stack k.step.machine)) {n : Nat} {a : α}
    {bottom : List α} (top : stack (m.after n).machine = a :: bottom) (d : Nat) :
    m.Keeps stack (a :: bottom) n (n + d) ∨
      ∃ r < d, m.Keeps stack (a :: bottom) n (n + r) ∧
        stack (m.after (n + r)).machine = a :: bottom ∧
        stack (m.after (n + r + 1)).machine = bottom := by
  induction d with
  | zero =>
    refine .inl fun e low high => ?_
    obtain rfl := Nat.le_antisymm high low
    exact top ▸ List.suffix_rfl
  | succ d ih =>
    rcases ih with keeps | ⟨r, before, popped⟩
    · rcases (after_moves moves (n + d)).keeps_or_pops
        (keeps (n + d) (Nat.le_add_right n d) le_rfl)
        with kept | ⟨here, gone⟩
      · exact .inl (keeps.succ kept)
      · exact .inr ⟨d, Nat.lt_succ_self d, keeps, here, gone⟩
    · exact .inr ⟨r, Nat.lt_succ_of_lt before, popped⟩

/-- A stack that changes between two states does so by a step from the first one. -/
theorem exists_next_of_pops {stack : Machine → List α} {n : Nat} {a : α} {bottom : List α}
    (here : stack (m.after n).machine = a :: bottom)
    (gone : stack (m.after (n + 1)).machine = bottom) :
    ∃ j, m.after n = .next j ∧ stack j = a :: bottom ∧ stack j.step.machine = bottom := by
  rw [after] at gone
  cases reached : m.after n with
  | next j =>
    rw [reached] at here gone
    exact ⟨j, rfl, here, gone⟩
  | halted h j | failed e j =>
    rw [reached] at here gone
    exact absurd (here.symm.trans gone) (List.cons_ne_self a bottom)

/-! ## The calls -/

theorem Transfer.calls_move {c : Nat} {calls : List Nat} (transfer : m.Transfer i c calls) :
    StackMove m.calls calls := by
  cases transfer with
  | onward | jump => exact .keep _
  | call => exact .push _ _
  | ret _ pushed => exact pushed ▸ .pop _ _

/-- A `CALL` puts on the position after it. -/
theorem Transfer.calls_eq {c : Nat} {calls : List Nat} (transfer : m.Transfer i c calls)
    (known : i.opcode? = some .call) : calls = (m.position + 1) :: m.calls := by
  cases transfer with
  | onward call => exact absurd known call
  | jump other => simp [known] at other
  | call => rfl
  | ret other => simp [known] at other

/-- A transfer that takes a call off goes on from there. -/
theorem Transfer.returns {c d : Nat} {calls : List Nat} (transfer : m.Transfer i c calls)
    (pushed : m.calls = d :: calls) : i.opcode? = some .ret ∧ c = d := by
  cases transfer with
  | onward | jump => exact absurd pushed.symm (List.cons_ne_self d _)
  | call => exact absurd (congrArg List.length pushed) (by simp; omega)
  | ret known found => exact ⟨known, (List.cons.inj (found.symm.trans pushed)).1⟩

theorem calls_move (m : Machine) : StackMove m.calls m.step.machine.calls := by
  cases fetched : m.fetch? with
  | none =>
    rw [step_of_fetch?_none fetched]
    exact .keep _
  | some i =>
    have directs := step_directs fetched
    cases stepped : m.step with
    | next k =>
      rw [stepped] at directs
      exact Transfer.calls_move directs
    | halted h k | failed e k =>
      rw [stepped] at directs
      exact directs.2 ▸ .keep _

/-- A call is taken off by a `RETURN`, which leads there. -/
theorem ret_of_pops {c : Nat} {calls : List Nat} (pushed : m.calls = c :: calls)
    (popped : m.step.machine.calls = calls) :
    ∃ i k, m.fetch? = some i ∧ i.opcode? = some .ret ∧ m.step = .next k ∧ k.position = c ∧
      k.calls = calls := by
  have changed : m.step.machine.calls ≠ m.calls := by
    rw [popped, pushed]
    exact (List.cons_ne_self c calls).symm
  cases fetched : m.fetch? with
  | none =>
    rw [step_of_fetch?_none fetched] at changed
    exact absurd rfl changed
  | some i =>
    have directs := step_directs fetched
    cases stepped : m.step with
    | next k =>
      rw [stepped] at directs popped
      obtain rfl : k.calls = calls := popped
      obtain ⟨known, there⟩ := Transfer.returns directs pushed
      exact ⟨i, k, rfl, known, rfl, there, rfl⟩
    | halted h k | failed e k =>
      rw [stepped] at directs changed
      exact absurd directs.2 changed

/-! ## The data stack -/

/-- What a step can make of the data stack: only `PUSHS` puts a value on it, and only `POPS`
takes one off. -/
inductive Exchange (m : Machine) (i : Instruction) : List Value → Prop
  | keep : Exchange m i m.stack
  | push {x : Operand} {v : Value} : i.opcode? = some .pushs → i.operands = [x] →
    m.symbol i.order .pushs x = .ok v → Exchange m i (v :: m.stack)
  | pop {p : Place} {v : Value} {rest : List Value} : i.opcode? = some .pops →
    i.operands = [.place p] → m.stack = v :: rest →
    m.step = { m.dispatch i with stack := rest }.store p v → Exchange m i rest

theorem store_stack (p : Place) (v : Value) : (m.store p v).machine.stack = m.stack :=
  store_machine (P := fun k => k.stack = m.stack) rfl fun _ _ => rfl

/-- What a step does to the data stack, also if it fails. -/
theorem step_exchanges (fetched : m.fetch? = some i) : m.Exchange i m.step.machine.stack := by
  cases known : i.opcode? with
  | none =>
    rw [step_of_unknown fetched known]
    exact .keep
  | some op =>
    have stepped := step_of_known fetched known
    rw [stepped]
    refine attempt_machine (P := fun k => m.Exchange i k.stack) .keep fun xs checked => ?_
    have operands := Operands.toList_of_check checked
    rw [checked, attempt_ok] at stepped
    by_cases push : op = .pushs
    · subst push
      obtain ⟨order, x, ⟨⟩⟩ := xs
      obtain rfl : order = i.order := Operands.order_of_check checked
      exact attempt_machine (P := fun k => m.Exchange i k.stack) .keep fun v found =>
        .push known operands ((symbol_eq_ok_congr (m := m) (k := m.dispatch i) rfl).1 found)
    by_cases pop : op = .pops
    · subst pop
      obtain ⟨order, p, ⟨⟩⟩ := xs
      cases held : m.stack with
      | nil =>
        rw [execute_pops_nil (m := m.dispatch i) held]
        exact .keep
      | cons v rest =>
        rw [execute_pops_cons (m := m.dispatch i) held] at stepped ⊢
        rw [store_stack]
        exact .pop known operands held stepped
    · have kept : .stack ∉ op.changes := by
        clear stepped checked operands xs known
        revert push pop
        cases op <;> decide
      rw [(execute_sameOutside (m.dispatch i) op xs).stack kept]
      exact .keep

theorem Exchange.move {stack : List Value} (exchange : m.Exchange i stack) :
    StackMove m.stack stack := by
  cases exchange with
  | keep => exact .keep _
  | push => exact .push _ _
  | pop _ _ held => exact held ▸ .pop _ _

theorem stack_move (m : Machine) : StackMove m.stack m.step.machine.stack := by
  cases fetched : m.fetch? with
  | none =>
    rw [step_of_fetch?_none fetched]
    exact .keep _
  | some i => exact (step_exchanges fetched).move

/-- A `PUSHS` that does not fail puts the value of its operand on the stack. -/
theorem stack_of_pushs (fetched : m.fetch? = some i) (known : i.opcode? = some .pushs)
    (stepped : m.step = .next k) :
    ∃ x v, i.operands = [x] ∧ m.symbol i.order .pushs x = .ok v ∧ k.stack = v :: m.stack := by
  rw [step_of_known fetched known] at stepped
  refine attempt_outcome (P := fun o => o = .next k → _) (fun _ _ => nofun) (fun xs checked => ?_)
    stepped
  obtain ⟨order, x, ⟨⟩⟩ := xs
  obtain rfl : order = i.order := Operands.order_of_check checked
  refine attempt_outcome (P := fun o => o = .next k → _)
    (fun _ _ => nofun) fun v found pushed => ?_
  cases pushed
  exact ⟨x, v, Operands.toList_of_check checked,
    (symbol_eq_ok_congr (m := m) (k := m.dispatch i) rfl).1 found, rfl⟩

/-- A value is taken off the stack by a `POPS`, which stores it. -/
theorem pops_of_pops {v : Value} {rest : List Value} (held : m.stack = v :: rest)
    (popped : m.step.machine.stack = rest) :
    ∃ i p, m.fetch? = some i ∧ i.opcode? = some .pops ∧ i.operands = [.place p] ∧
      m.step = { m.dispatch i with stack := rest }.store p v := by
  cases fetched : m.fetch? with
  | none =>
    rw [step_of_fetch?_none fetched] at popped
    exact absurd (held.symm.trans popped) (List.cons_ne_self v rest)
  | some i =>
    have exchange := step_exchanges fetched
    rw [popped] at exchange
    cases exchange with
    | keep => exact absurd held.symm (List.cons_ne_self v _)
    | push => exact absurd (congrArg List.length held) (by simp; omega)
    | pop known operands found stepped =>
      obtain ⟨rfl, -⟩ := List.cons.inj (found.symm.trans held)
      exact ⟨i, _, rfl, known, operands, stepped⟩

/-! ## Whole runs -/

/-- The step that follows the state after `n` steps is a `RETURN`, which takes the position `c`
off the calls, leaves the others, and goes on from there. -/
def ReturnsAt (m : Machine) (n c : Nat) (calls : List Nat) : Prop :=
  ∃ j i k, m.after n = .next j ∧ j.fetch? = some i ∧ i.opcode? = some .ret ∧
    j.calls = c :: calls ∧
    j.step = .next k ∧ k.position = c ∧ k.calls = calls

/-- The step that follows the state after `n` steps is a `POPS`, which takes the value `v` off the
data stack, leaves the others, and stores the value if it can. -/
def PopsAt (m : Machine) (n : Nat) (v : Value) (rest : List Value) : Prop :=
  ∃ j i p, m.after n = .next j ∧ j.fetch? = some i ∧ i.opcode? = some .pops ∧
    i.operands = [.place p] ∧ j.stack = v :: rest ∧
    j.step = { j.dispatch i with stack := rest }.store p v ∧ j.step.machine.stack = rest

/-- A position on the calls stays there until a `RETURN` takes it. -/
theorem keeps_or_returns {n c : Nat} {calls : List Nat}
    (pushed : (m.after n).machine.calls = c :: calls) (d : Nat) :
    m.Keeps Machine.calls (c :: calls) n (n + d) ∨
      ∃ r < d, m.Keeps Machine.calls (c :: calls) n (n + r) ∧ m.ReturnsAt (n + r) c calls := by
  rcases keeps_or_pops calls_move pushed d with keeps | ⟨r, before, keeps, here, gone⟩
  · exact .inl keeps
  · obtain ⟨j, reached, here, gone⟩ := exists_next_of_pops here gone
    obtain ⟨i, k, fetched, known, stepped, there, left⟩ := ret_of_pops here gone
    exact .inr ⟨r, before, keeps, j, i, k, reached, fetched, known, here, stepped, there, left⟩

/-- A value on the data stack stays there until a `POPS` takes it. -/
theorem keeps_or_pops_value {n : Nat} {v : Value} {rest : List Value}
    (pushed : (m.after n).machine.stack = v :: rest) (d : Nat) :
    m.Keeps Machine.stack (v :: rest) n (n + d) ∨
      ∃ r < d, m.Keeps Machine.stack (v :: rest) n (n + r) ∧ m.PopsAt (n + r) v rest := by
  rcases keeps_or_pops stack_move pushed d with keeps | ⟨r, before, keeps, here, gone⟩
  · exact .inl keeps
  · obtain ⟨j, reached, here, gone⟩ := exists_next_of_pops here gone
    obtain ⟨i, p, fetched, known, operands, stepped⟩ := pops_of_pops here gone
    exact .inr ⟨r, before, keeps, j, i, p, reached, fetched, known, operands, here, stepped, gone⟩

/-- **Both stacks nest.**  When a run from any state has executed a `CALL`, the position after it
stays on top of the calls that were there before, through any number of further steps, unless
there is a first `RETURN` that takes this position off: it goes on from there, with just the calls
that were there before.  When the run has executed a `PUSHS`, the value stays on top of the values
that were there before, unless there is a first `POPS` that takes it off: it stores just this
value, and the values that were there before are left. -/
theorem call_and_push_nest {n : Nat} {j : Machine} (reached : m.after n = .next j)
    (fetched : j.fetch? = some i) (stepped : j.step = .next k) :
    (i.opcode? = some .call →
      let back := j.position + 1
      k.calls = back :: j.calls ∧
        ∀ d, m.Keeps Machine.calls (back :: j.calls) (n + 1) (n + 1 + d) ∨
          ∃ r < d, m.Keeps Machine.calls (back :: j.calls) (n + 1) (n + 1 + r) ∧
            m.ReturnsAt (n + 1 + r) back j.calls) ∧
    (i.opcode? = some .pushs →
      ∃ x v, i.operands = [x] ∧ j.symbol i.order .pushs x = .ok v ∧ k.stack = v :: j.stack ∧
        ∀ d, m.Keeps Machine.stack (v :: j.stack) (n + 1) (n + 1 + d) ∨
          ∃ r < d, m.Keeps Machine.stack (v :: j.stack) (n + 1) (n + 1 + r) ∧
            m.PopsAt (n + 1 + r) v j.stack) := by
  have after : m.after (n + 1) = .next k := (congrArg Outcome.resume reached).trans stepped
  refine ⟨fun called => ?_, fun pushed => ?_⟩
  · have directs := step_directs fetched
    rw [stepped] at directs
    have calls : k.calls = (j.position + 1) :: j.calls := Transfer.calls_eq directs called
    exact ⟨calls, keeps_or_returns (by rw [after]; exact calls)⟩
  · obtain ⟨x, v, operands, value, stack⟩ := stack_of_pushs fetched pushed stepped
    exact ⟨x, v, operands, value, stack, keeps_or_pops_value (by rw [after]; exact stack)⟩

/-- A routine pushes a value of its own over that of its caller, and calls another routine before
it takes the value off. -/
theorem call_and_push_nest_routine :
    let x : Place := ⟨.global, "x"⟩
    let i (op : Opcode) (xs : List Operand) (order : Nat) : Instruction := ⟨.known op, xs, order⟩
    let p : Program := ⟨[i .defvar [.place x] 1, i .pushs [.literal (.int 7)] 2,
      i .call [.label "f"] 3, i .pops [.place x] 4, i .exit [.literal (.int 0)] 5,
      i .label [.label "f"] 6, i .pushs [.literal (.bool true)] 7, i .call [.label "g"] 8,
      i .pops [.place x] 9, i .ret [] 10, i .label [.label "g"] 11, i .ret [] 12]⟩
    let m := new p (.ofText "") .reliable .reliable
    ∃ s, m.start = .ok s ∧ (∃ r < 5, s.ReturnsAt (3 + r) 3 []) ∧
      ∃ r < 7, s.PopsAt (2 + r) (.int 7) [] := by
  intro x i p m
  refine ⟨m.ready p, start_of_ordered (by decide +kernel), ?_, ?_⟩
  · obtain ⟨j, reached, fetched, calls, position, k, stepped⟩ :
        ∃ j, (m.ready p).after 2 = .next j ∧ j.fetch? = some (i .call [.label "f"] 3) ∧
          j.calls = [] ∧ j.position = 2 ∧ ∃ k, j.step = .next k :=
      ⟨_, rfl, rfl, rfl, rfl, _, rfl⟩
    have gone : ((m.ready p).after 8).machine.calls = [] := by decide +kernel
    have nested := ((call_and_push_nest reached fetched stepped).1 rfl).2 5
    rw [calls, position] at nested
    rcases nested with keeps | ⟨r, before, -, returns⟩
    · have kept := keeps 8 (by decide) (by decide)
      rw [gone] at kept
      exact absurd (List.suffix_nil.1 kept) (List.cons_ne_nil _ _)
    · exact ⟨r, before, returns⟩
  · obtain ⟨j, reached, fetched, stack, k, stepped⟩ :
        ∃ j, (m.ready p).after 1 = .next j ∧ j.fetch? = some (i .pushs [.literal (.int 7)] 2) ∧
          j.stack = [] ∧ ∃ k, j.step = .next k :=
      ⟨_, rfl, rfl, rfl, _, rfl⟩
    have gone : ((m.ready p).after 9).machine.stack = [] := by decide +kernel
    obtain ⟨y, v, operands, value, -, nested⟩ :=
      (call_and_push_nest reached fetched stepped).2 rfl
    obtain rfl : Operand.literal (.int 7) = y := (List.cons.inj operands).1
    obtain rfl : Value.int 7 = v := Except.ok.inj value
    rw [stack] at nested
    rcases nested 7 with keeps | ⟨r, before, -, pops⟩
    · have kept := keeps 9 (by decide) (by decide)
      rw [gone] at kept
      exact absurd (List.suffix_nil.1 kept) (List.cons_ne_nil _ _)
    · exact ⟨r, before, pops⟩

end Machine

end FrameCode
