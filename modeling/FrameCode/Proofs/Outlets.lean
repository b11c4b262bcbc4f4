import FrameCode.Proofs.Diagnostics

/-!
# Rules of outlets

The rules by which an outlet refuses writes and flushes are fixed: writes and flushes change what
the outlet has taken and the numbers of those that were tried, and no step changes the rules of
either outlet of a machine.  So an outlet that never refuses a flush is flushed at the end of a
run, whatever the run has written.
-/

namespace FrameCode

namespace Outlet

/-- The outlets refuse by the same rules. -/
structure SameRules (o o' : Outlet) : Prop where
  refusesWrite : o'.refusesWrite = o.refusesWrite
  refusesFlush : o'.refusesFlush = o.refusesFlush

theorem SameRules.refl (o : Outlet) : o.SameRules o := ⟨rfl, rfl⟩

theorem SameRules.trans {o o' o'' : Outlet} (first : o.SameRules o') (second : o'.SameRules o'') :
    o.SameRules o'' :=
  ⟨second.refusesWrite.trans first.refusesWrite, second.refusesFlush.trans first.refusesFlush⟩

theorem sameRules_write (o : Outlet) (s : String) : o.SameRules (o.write s).2 := by
  unfold write
  cases o.refusesWrite o.tried <;> exact ⟨rfl, rfl⟩

theorem sameRules_flush (o : Outlet) : o.SameRules o.flush.2 := ⟨rfl, rfl⟩

/-- The outlet refuses no write and no flush. -/
structure Unfailing (o : Outlet) : Prop where
  write : ∀ n, o.refusesWrite n = none
  flush : ∀ n l, o.refusesFlush n l = none

theorem Unfailing.of_sameRules {o o' : Outlet} (unfailing : o.Unfailing) (same : o.SameRules o') :
    o'.Unfailing :=
  ⟨same.refusesWrite ▸ unfailing.write, same.refusesFlush ▸ unfailing.flush⟩

end Outlet

namespace Machine

/-- The outlets of the machines refuse by the same rules. -/
structure SameOutlets (m k : Machine) : Prop where
  out : m.out.SameRules k.out
  diagnostics : m.diagnostics.SameRules k.diagnostics

variable {m k : Machine}

theorem SameOutlets.refl (m : Machine) : m.SameOutlets m := ⟨.refl _, .refl _⟩

theorem write_sameOutlets (order : Nat) (x : Operand) :
    m.SameOutlets (m.write order x).machine := by
  refine attempt_machine (.refl m) fun v _ => ?_
  have written := m.out.sameRules_write v.output
  generalize m.out.write v.output = answer at written ⊢
  obtain ⟨refusal, o⟩ := answer
  cases refusal <;> exact ⟨written, .refl _⟩

theorem dprint_sameOutlets (order : Nat) (x : Operand) :
    m.SameOutlets (m.dprint order x).machine := by
  refine attempt_machine (.refl m) fun v _ => ?_
  have written := m.diagnostics.sameRules_write v.output
  generalize m.diagnostics.write v.output = answer at written ⊢
  obtain ⟨refusal, o⟩ := answer
  cases refusal <;> exact ⟨.refl _, written⟩

theorem writeDump_sameOutlets (m : Machine) : m.SameOutlets m.writeDump where
  out := by
    rw [(writeDump_sameOutside m).out (by decide)]
    exact .refl _
  diagnostics := by
    rw [writeDump_diagnostics]
    exact m.diagnostics.sameRules_write m.dump

/-- No opcode changes the rules of the outlets. -/
theorem execute_sameOutlets (m : Machine) (op : Opcode) (xs : Operands op) :
    m.SameOutlets (m.execute op xs).machine := by
  by_cases writes : op ∈ [.write, .dprint, .break]
  · simp only [List.mem_cons, List.not_mem_nil, or_false] at writes
    rcases writes with rfl | rfl | rfl
    · exact write_sameOutlets _ _
    · exact dprint_sameOutlets _ _
    · exact writeDump_sameOutlets m
  · have same := execute_sameOutside m op xs
    have kept : .out ∉ op.changes ∧ .diagnostics ∉ op.changes := by
      revert writes
      clear same
      cases op <;> decide
    exact ⟨same.out kept.1 ▸ .refl _, same.diagnostics kept.2 ▸ .refl _⟩

theorem step_sameOutlets (m : Machine) : m.SameOutlets m.step.machine := by
  cases fetched : m.fetch? with
  | none =>
    rw [step_of_fetch?_none fetched]
    exact .refl m
  | some i =>
    cases known : i.opcode? with
    | none =>
      rw [step_of_unknown fetched known]
      exact ⟨.refl _, .refl _⟩
    | some op =>
      rw [step_of_known fetched known]
      have dispatched {k : Machine} (same : (m.dispatch i).SameOutlets k) : m.SameOutlets k :=
        ⟨same.out, same.diagnostics⟩
      exact attempt_machine (P := m.SameOutlets) (dispatched (.refl _)) fun xs _ =>
        dispatched (execute_sameOutlets _ op xs)

/-- No run changes the rules of the outlets. -/
theorem after_sameOutlets (m : Machine) (n : Nat) : m.SameOutlets (m.after n).machine := by
  refine after_induction (P := fun o => m.SameOutlets o.machine) (.refl m) (fun k held => ?_) n
  have same := step_sameOutlets k
  exact ⟨held.out.trans same.out, held.diagnostics.trans same.diagnostics⟩

/-- Outlets that never refuse a flush are flushed after any number of steps. -/
theorem flush_after (out : ∀ n l, m.out.refusesFlush n l = none)
    (diagnostics : ∀ n l, m.diagnostics.refusesFlush n l = none) (n : Nat) :
    (m.after n).machine.flush.1 = .ok () := by
  have same := after_sameOutlets m n
  rw [flush, Outlet.flush, Outlet.flush, same.out.refusesFlush,
    same.diagnostics.refusesFlush, out, diagnostics]

end Machine

end FrameCode
