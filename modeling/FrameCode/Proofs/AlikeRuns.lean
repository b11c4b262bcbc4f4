import FrameCode.Proofs.AlikeMachines
import FrameCode.Proofs.Diagnostics

/-!
# Alike runs

A step takes alike machines to alike machines, with the same halt or the same fault, so two
programs that are the same and have well-formed literals run alike, step by step.  What their runs
can be told apart by is only the text of a dump, since a dump shows stored forms.
-/

namespace FrameCode

/-- The notes are equal, unless they are dumps. -/
structure Note.Alike (a b : Note) : Prop where
  opcode : a.opcode = b.opcode
  text : a.opcode ≠ .break → a.text = b.text

theorem rel_getElem? {α β : Type} {R : α → β → Prop} {xs : List α} {ys : List β}
    (related : List.Forall₂ R xs ys) (n : Nat) : Option.Rel R xs[n]? ys[n]? := by
  induction related generalizing n with
  | nil => exact .none
  | cons first _ ih =>
    cases n with
    | zero => exact .some first
    | succ n => exact ih n

/-- What paired outlets take of one write is the same number of texts. -/
theorem Outlet.Paired.since_write {o o' : Outlet} (paired : o.Paired o')
    {R : String → String → Prop}
    {s s' : String} (texts : R s s') :
    List.Forall₂ R ((o.write s).2.since o) ((o'.write s').2.since o') := by
  rw [Outlet.since_write, Outlet.since_write, paired.refusesWrite, paired.tried]
  split
  · exact .nil
  · exact .cons texts .nil

theorem Outcome.Alike.ending? {o o' : Outcome} (alike : o.Alike o') :
    Option.Rel (fun r r' => r.1 = r'.1 ∧ r.2.Alike r'.2) o.ending? o'.ending? := by
  cases alike with
  | next => exact .none
  | halted h alike => exact .some ⟨rfl, alike⟩
  | failed e alike => exact .some ⟨rfl, alike⟩

theorem Outcome.Alike.machine {o o' : Outcome} (alike : o.Alike o') :
    o.machine.Alike o'.machine := by
  cases alike <;> assumption

namespace Machine.Alike

variable {m k : Machine}

/-! ## One step -/

theorem fetch? (alike : m.Alike k) : Option.Rel Instruction.Alike m.fetch? k.fetch? := by
  unfold Machine.fetch?
  rw [alike.position]
  exact rel_getElem? alike.program k.position

theorem advance (alike : m.Alike k) {i j : Instruction} (same : i.Alike j) :
    (m.advance i).Alike (k.advance j) :=
  { alike with position := congrArg (· + 1) alike.position, order := same.order }

theorem dispatch (alike : m.Alike k) {i j : Instruction} (same : i.Alike j) :
    (m.dispatch i).Alike (k.dispatch j) := by
  have counted : Machine.Alike { m.advance i with steps := m.steps + 1 }
      { k.advance j with steps := k.steps + 1 } :=
    { alike.advance same with steps := congrArg (· + 1) alike.steps }
  exact counted.record (.dispatched same)

/-- One step of alike machines. -/
theorem step (alike : m.Alike k) : m.step.Alike k.step := by
  rcases rel_cases alike.fetch? with ⟨here, there⟩ | ⟨i, j, here, there, same⟩
  · rw [step_of_fetch?_none here, step_of_fetch?_none there]
    exact .halted _ alike
  cases known : j.opcode? with
  | none =>
    rw [step_of_unknown here (same.opcode?_eq.trans known), step_of_unknown there known,
      same.mnemonic, same.order]
    exact .next ((alike.advance same).record (.same _))
  | some op =>
    rw [step_of_known here (same.opcode?_eq.trans known), step_of_known there known]
    have dispatched := alike.dispatch same
    exact dispatched.attempt (Operands.check_alike op same) fun _ _ operands =>
      dispatched.execute op operands

/-- The outcomes of alike machines after any number of steps. -/
theorem after (alike : m.Alike k) (n : Nat) : (m.after n).Alike (k.after n) := by
  induction n with
  | zero => exact .next alike
  | succ n ih =>
    show (m.after n).resume.Alike (k.after n).resume
    generalize m.after n = o at ih ⊢
    generalize k.after n = o' at ih ⊢
    cases ih with
    | next alike => exact alike.step
    | halted h alike => exact .halted h alike
    | failed e alike => exact .failed e alike

/-! ## Notes -/

/-- What an instruction adds to the diagnostics is the same in both runs, unless it is a dump. -/
theorem since_execute (alike : m.Alike k) (op : Opcode) {xs ys : Operands op}
    (operands : xs.Alike ys) :
    List.Forall₂ (fun s s' => op ≠ .break → s = s')
      ((m.execute op xs).machine.diagnostics.since m.diagnostics)
      ((k.execute op ys).machine.diagnostics.since k.diagnostics) := by
  by_cases listed : .diagnostics ∈ op.changes
  · rcases Opcode.eq_of_mem_changes listed with rfl | rfl
    · obtain ⟨order, x, ⟨⟩⟩ := xs
      obtain ⟨order', y, ⟨⟩⟩ := ys
      obtain ⟨same, operand, -⟩ := operands
      obtain rfl : order = order' := same
      show List.Forall₂ _ ((m.dprint order x).machine.diagnostics.since _)
        ((k.dprint order y).machine.diagnostics.since _)
      rcases (alike.symbol order .dprint operand).cases with
        ⟨e, here, there⟩ | ⟨v, w, here, there, values⟩
      · rw [Machine.dprint, Machine.dprint, here, there, attempt_error, attempt_error]
        show List.Forall₂ _ (m.diagnostics.since m.diagnostics)
          (k.diagnostics.since k.diagnostics)
        rw [Outlet.since_self, Outlet.since_self]
        exact .nil
      · rw [dprint_machine here, dprint_machine there]
        exact alike.diagnostics.since_write fun _ => values.output_eq
    · show List.Forall₂ _ (m.writeDump.diagnostics.since _) (k.writeDump.diagnostics.since _)
      rw [writeDump_diagnostics, writeDump_diagnostics]
      exact alike.diagnostics.since_write fun other => absurd rfl other
  · rw [(execute_sameOutside m op xs).diagnostics listed,
      (execute_sameOutside k op ys).diagnostics listed, Outlet.since_self, Outlet.since_self]
    exact .nil

theorem noted (alike : m.Alike k) : List.Forall₂ Note.Alike m.noted k.noted := by
  unfold Machine.noted
  rcases rel_cases alike.fetch? with ⟨here, there⟩ | ⟨i, j, here, there, same⟩
  · rw [here, there]
    exact .nil
  rw [here, there, Option.bind_some, Option.bind_some, same.opcode?_eq]
  cases known : j.opcode? with
  | none => exact .nil
  | some op =>
    have dispatched := alike.dispatch same
    have added : List.Forall₂ (fun s s' => op ≠ .break → s = s')
        (m.step.machine.diagnostics.since m.diagnostics)
        (k.step.machine.diagnostics.since k.diagnostics) := by
      rw [step_of_known here (same.opcode?_eq.trans known), step_of_known there known]
      rcases (Operands.check_alike op same).cases with
        ⟨e, here, there⟩ | ⟨xs, ys, here, there, operands⟩
      · rw [here, there, attempt_error, attempt_error]
        show List.Forall₂ _ (m.diagnostics.since m.diagnostics)
          (k.diagnostics.since k.diagnostics)
        rw [Outlet.since_self, Outlet.since_self]
        exact .nil
      · rw [here, there, attempt_ok, attempt_ok]
        exact dispatched.since_execute op operands
    refine List.forall₂_map_left_iff.2 (List.forall₂_map_right_iff.2 (added.imp ?_))
    exact fun _ _ text => ⟨rfl, text⟩

/-- The notes of alike machines after any number of steps. -/
theorem notes (alike : m.Alike k) (n : Nat) :
    List.Forall₂ Note.Alike (m.notes n) (k.notes n) := by
  induction n with
  | zero => exact .nil
  | succ n ih =>
    unfold Machine.notes
    have outcomes := alike.after n
    generalize m.after n = o at outcomes ⊢
    generalize k.after n = o' at outcomes ⊢
    cases outcomes with
    | next alike => exact List.rel_append alike.noted ih
    | halted => exact ih
    | failed => exact ih

/-! ## Starts and ends of runs -/

theorem new {p q : Program} (programs : p.Alike q) (input : Input) (out : Outlet) {o o' : Outlet}
    (paired : o.Paired o') : (Machine.new p input out o).Alike (Machine.new q input out o') where
  program := programs
  labels := rfl
  memory := .empty
  stack := .nil
  calls := rfl
  position := rfl
  order := rfl
  steps := rfl
  input := rfl
  out := rfl
  diagnostics := paired
  journal := .nil

theorem reset (alike : m.Alike k) : m.reset.Alike k.reset := by
  rw [Machine.reset, Machine.reset, alike.input, alike.out]
  exact new alike.program _ _ alike.diagnostics

theorem ready (alike : m.Alike k) {p q : Program} (programs : p.Alike q) :
    (m.ready p).Alike (k.ready q) := by
  unfold Machine.ready
  rw [programs.build_eq, programs.length_eq]
  dsimp only
  refine record ?_ (.same _)
  exact { alike.reset with
    program := programs
    labels := rfl
    journal := List.forall₂_same.2 fun e _ => .same e }

/-- Alike machines start alike, or are refused for the same reason. -/
theorem start (alike : m.Alike k) : Agree Machine.Alike m.start k.start := by
  rw [start_eq, start_eq]
  exact alike.program.ordered.map fun _ _ programs => alike.ready programs

/-- Alike machines flush alike. -/
theorem flush (alike : m.Alike k) : m.flush.1 = k.flush.1 ∧ m.flush.2.Alike k.flush.2 := by
  have paired := alike.diagnostics.flush
  unfold Machine.flush
  rw [alike.out, alike.fault]
  split
  · exact ⟨rfl, { alike with out := rfl }⟩
  · generalize m.diagnostics.flush = answer at paired ⊢
    generalize k.diagnostics.flush = answer' at paired ⊢
    obtain ⟨refusal, o⟩ := answer
    obtain ⟨refusal', o'⟩ := answer'
    obtain ⟨rfl, paired⟩ : refusal = refusal' ∧ o.Paired o' := paired
    cases refusal with
    | none => exact ⟨rfl, { alike with out := rfl, diagnostics := paired }⟩
    | some reason => exact ⟨rfl, { alike with out := rfl, diagnostics := paired }⟩

theorem finish (alike : m.Alike k) (result : Except Fault Halt) :
    (m.finish result).1 = (k.finish result).1 ∧
    (m.finish result).2.Alike (k.finish result).2 := by
  have flushed := alike.flush
  unfold Machine.finish
  generalize m.flush = answer at flushed ⊢
  generalize k.flush = answer' at flushed ⊢
  obtain ⟨refusal, s⟩ := answer
  obtain ⟨refusal', t⟩ := answer'
  obtain ⟨rfl, left⟩ : refusal = refusal' ∧ s.Alike t := flushed
  dsimp only
  split
  · exact ⟨rfl, left⟩
  · exact ⟨rfl, left⟩
  · rw [left.steps]
    exact ⟨rfl, left.record (.same _)⟩

/-- Runs of alike machines end with the same result. -/
theorem run (alike : m.Alike k) (bound : Nat) :
    Option.Rel (fun r r' => r.1 = r'.1 ∧ r.2.Alike r'.2) (m.run bound) (k.run bound) := by
  unfold Machine.run
  rcases alike.start.cases with ⟨e, here, there⟩ | ⟨s, t, here, there, started⟩
  · rw [here, there]
    exact .some ⟨rfl, alike.reset⟩
  rw [here, there]
  dsimp only
  rw [loop_eq_ending?, loop_eq_ending?]
  rcases rel_cases (started.after bound).ending? with
    ⟨here, there⟩ | ⟨⟨result, s⟩, ⟨result', t⟩, here, there, rfl, ended⟩
  · rw [here, there]
    exact .none
  · rw [here, there]
    exact .some (ended.finish result)

end Machine.Alike

/-- **Equality of programs is a congruence for execution.**  Two programs that are the same, with
well-formed literals, run alike on the same input and outlets.  Both are refused for the same
reason, or else their machines are alike after any number of steps, with the same halt or fault if
the run has ended, and their notes differ at most in the dumps. -/
theorem Machine.run_alike {p q : Program} (same : p.same q = true) (formed : p.WellFormed)
    (formed' : q.WellFormed) (input : Input) (out diagnostics : Outlet) :
    let m := Machine.new p input out diagnostics
    let k := Machine.new q input out diagnostics
    Agree (fun s t => ∀ n, (s.after n).Alike (t.after n) ∧
      List.Forall₂ Note.Alike (s.notes n) (t.notes n)) m.start k.start ∧
    ∀ bound, Option.Rel (fun r r' => r.1 = r'.1 ∧ r.2.Alike r'.2)
      (m.run bound) (k.run bound) := by
  intro m k
  have programs : p.Alike q := Program.alike_iff.2 ⟨same, formed, formed'⟩
  have alike : m.Alike k := .new programs input out (.refl diagnostics)
  refine ⟨?_, alike.run⟩
  rcases alike.start.cases with ⟨e, here, there⟩ | ⟨s, t, here, there, started⟩
  · rw [here, there]
    exact .error e
  · rw [here, there]
    exact .ok fun n => ⟨started.after n, started.notes n⟩

/-- A string that is written with a code in one program and with a letter in the other, joined to
another string and dumped. -/
theorem Machine.run_alike_codes :
    let x : Operand := .place ⟨.global, "x"⟩
    let body (s : String) : Program := ⟨[⟨.known .defvar, [x], 1⟩,
      ⟨.known .concat, [x, .literal (.str s), .literal (.str "\\0321")], 2⟩,
      ⟨.known .dprint, [x], 3⟩, ⟨.known .break, [], 4⟩]⟩
    let p := body "a"
    let q := body "\\097"
    p.same q = true ∧ p.WellFormed ∧ q.WellFormed ∧
      (let m := Machine.new p (.ofText "") .reliable .reliable
      let k := Machine.new q (.ofText "") .reliable .reliable
      Agree (fun s t => ∀ n, (s.after n).Alike (t.after n) ∧
        List.Forall₂ Note.Alike (s.notes n) (t.notes n)) m.start k.start ∧
      ∀ bound, Option.Rel (fun r r' => r.1 = r'.1 ∧ r.2.Alike r'.2)
        (m.run bound) (k.run bound)) := by
  intro x body p q
  have same : p.same q = true := by decide
  have formed : p.WellFormed := by decide
  have formed' : q.WellFormed := by decide
  exact ⟨same, formed, formed', run_alike same formed formed' _ _ _⟩

end FrameCode
