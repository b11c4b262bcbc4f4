import FrameCode.Proofs.Footprint

/-!
# Notes

A note is a text that an instruction has added to the diagnostics, together with the opcode of the
instruction.  `Machine.notes` lists the notes of a run, and `taken_after` says that they are all
that the diagnostics have taken.
-/

namespace FrameCode

namespace Outlet

/-- The texts that were taken since the outlet was in an earlier state, the latest first. -/
def since (o earlier : Outlet) : List String :=
  o.taken.take (o.taken.length - earlier.taken.length)

theorem since_self (o : Outlet) : o.since o = [] := by
  rw [since, Nat.sub_self, List.take_zero]

/-- What an outlet took before stands below what it has taken since. -/
theorem since_append {o earlier : Outlet} (grown : earlier.taken <:+ o.taken) :
    o.since earlier ++ earlier.taken = o.taken := by
  obtain ⟨texts, eq⟩ := grown
  rw [since, ← eq, List.length_append, Nat.add_sub_cancel, List.take_left]

theorem since_write (o : Outlet) (s : String) :
    (o.write s).2.since o = if (o.refusesWrite o.tried).isSome then [] else [s] := by
  unfold write
  cases o.refusesWrite o.tried with
  | none =>
    show (s :: o.taken).take ((s :: o.taken).length - o.taken.length) = [s]
    rw [List.length_cons, Nat.add_sub_cancel_left]
    rfl
  | some reason => exact since_self o

theorem taken_write_suffix (o : Outlet) (s : String) : o.taken <:+ (o.write s).2.taken := by
  unfold write
  cases o.refusesWrite o.tried with
  | none => exact List.suffix_cons s o.taken
  | some reason => exact List.suffix_refl o.taken

end Outlet

/-- Just two opcodes add to the diagnostics. -/
theorem Opcode.eq_of_mem_changes {op : Opcode} (mem : .diagnostics ∈ op.changes) :
    op = .dprint ∨ op = .break := by
  cases op <;> first | exact .inl rfl | exact .inr rfl | exact absurd mem (by decide)

/-- A text in the diagnostics, and the opcode of the instruction that added it. -/
structure Note where
  opcode : Opcode
  text : String

namespace Machine

variable {m : Machine}

/-- The notes of the next step, the latest first. -/
def noted (m : Machine) : List Note :=
  match m.fetch?.bind Instruction.opcode? with
  | none => []
  | some op => (m.step.machine.diagnostics.since m.diagnostics).map (Note.mk op)

/-- The notes of a number of steps, the latest first. -/
def notes (m : Machine) : Nat → List Note
  | 0 => []
  | n + 1 =>
    match m.after n with
    | .next k => k.noted ++ m.notes n
    | .halted _ _ => m.notes n
    | .failed _ _ => m.notes n

theorem notes_succ_of_next {n : Nat} {k : Machine} (reached : m.after n = .next k) :
    m.notes (n + 1) = k.noted ++ m.notes n := by
  rw [notes, reached]

/-- A run that has ended adds no notes. -/
theorem notes_of_le {n n' : Nat} (ended : (m.after n).result?.isSome) (le : n ≤ n') :
    m.notes n' = m.notes n := by
  induction le with
  | refl => rfl
  | step le ih =>
    rw [notes, after_of_le ended le, ih]
    cases reached : m.after n with
    | next k =>
      rw [reached] at ended
      cases ended
    | halted h k => rfl
    | failed e k => rfl

/-- A run has one end. -/
theorem eq_of_ended {n n' : Nat} (ended : (m.after n).result?.isSome)
    (ended' : (m.after n').result?.isSome) : m.after n' = m.after n ∧ m.notes n' = m.notes n := by
  rcases Nat.le_total n n' with le | le
  · exact ⟨after_of_le ended le, notes_of_le ended le⟩
  · exact ⟨(after_of_le ended' le).symm, (notes_of_le ended' le).symm⟩

/-! ## All that the diagnostics take -/

theorem writeDump_diagnostics (m : Machine) :
    m.writeDump.diagnostics = (m.diagnostics.write m.dump).2 := by
  unfold writeDump
  split
  · next written => rw [written]
  · next written =>
    rw [written]
    rfl

theorem dprint_machine {order : Nat} {x : Operand} {v : Value}
    (found : m.symbol order .dprint x = .ok v) :
    (m.dprint order x).machine.diagnostics = (m.diagnostics.write v.output).2 := by
  unfold dprint
  rw [found, attempt_ok]
  split
  · next written => rw [written]; rfl
  · next written => rw [written]; rfl

/-- No instruction takes anything back from the diagnostics. -/
theorem execute_suffix (m : Machine) (op : Opcode) (xs : Operands op) :
    m.diagnostics.taken <:+ (m.execute op xs).machine.diagnostics.taken := by
  by_cases listed : .diagnostics ∈ op.changes
  · rcases Opcode.eq_of_mem_changes listed with rfl | rfl
    · obtain ⟨order, x, ⟨⟩⟩ := xs
      show _ <:+ (m.dprint order x).machine.diagnostics.taken
      cases found : m.symbol order .dprint x with
      | ok v =>
        rw [dprint_machine found]
        exact Outlet.taken_write_suffix _ _
      | error e =>
        have kept : (m.dprint order x).machine.diagnostics = m.diagnostics := by
          rw [dprint, found, attempt_error]
          rfl
        exact ⟨[], congrArg Outlet.taken kept.symm⟩
    · show _ <:+ m.writeDump.diagnostics.taken
      rw [writeDump_diagnostics]
      exact Outlet.taken_write_suffix _ _
  · have kept := (execute_sameOutside m op xs).diagnostics listed
    exact ⟨[], congrArg Outlet.taken kept.symm⟩

theorem taken_step (m : Machine) :
    m.step.machine.diagnostics.taken = m.noted.map Note.text ++ m.diagnostics.taken := by
  unfold noted
  cases fetched : m.fetch? with
  | none => rw [step_of_fetch?_none fetched]; rfl
  | some i =>
    cases known : i.opcode? with
    | none =>
      rw [step_of_unknown fetched known, Option.bind_some, known]
      rfl
    | some op =>
      have grown : m.diagnostics.taken <:+ m.step.machine.diagnostics.taken := by
        rw [step_of_known fetched known]
        exact attempt_machine (P := fun k => m.diagnostics.taken <:+ k.diagnostics.taken)
          (List.suffix_refl _) fun xs _ => execute_suffix (m.dispatch i) op xs
      rw [Option.bind_some, known]
      show _ =
        ((m.step.machine.diagnostics.since m.diagnostics).map (Note.mk op)).map Note.text ++ _
      rw [List.map_map, show Note.text ∘ Note.mk op = id from rfl, List.map_id,
        Outlet.since_append grown]

theorem noted_eq {i : Instruction} {op : Opcode} (fetched : m.fetch? = some i)
    (known : i.opcode? = some op) :
    m.noted = (m.step.machine.diagnostics.since m.diagnostics).map (Note.mk op) := by
  rw [noted, fetched, Option.bind_some, known]

/-- An instruction whose operands do not pass their check leaves no note. -/
theorem noted_of_refused {i : Instruction} {op : Opcode} {e : Fault} (fetched : m.fetch? = some i)
    (known : i.opcode? = some op) (refused : Operands.check op i = .error e) :
    m.noted = [] := by
  rw [noted_eq fetched known, step_of_known fetched known, refused, attempt_error]
  exact congrArg (List.map (Note.mk op)) (Outlet.since_self m.diagnostics)

/-- A note has the opcode of its instruction, whose operands have passed their check. -/
theorem passed_of_mem_noted {i : Instruction} {op : Opcode} (fetched : m.fetch? = some i)
    (known : i.opcode? = some op) {a : Note} (mem : a ∈ m.noted) :
    a.opcode = op ∧ ∃ xs, Operands.check op i = .ok xs := by
  cases checked : Operands.check op i with
  | error e =>
    rw [noted_of_refused fetched known checked] at mem
    cases mem
  | ok xs =>
    rw [noted_eq fetched known] at mem
    obtain ⟨text, -, rfl⟩ := List.mem_map.1 mem
    exact ⟨rfl, xs, rfl⟩

/-- The texts of the notes are all that the diagnostics have taken in a run. -/
theorem taken_after (m : Machine) (n : Nat) :
    (m.after n).machine.diagnostics.taken = (m.notes n).map Note.text ++ m.diagnostics.taken := by
  induction n with
  | zero => rfl
  | succ n ih =>
    unfold after notes
    cases reached : m.after n with
    | next k =>
      rw [reached] at ih
      replace ih : k.diagnostics.taken = _ := ih
      show k.step.machine.diagnostics.taken = (k.noted ++ m.notes n).map Note.text ++ _
      rw [taken_step, ih, List.map_append, List.append_assoc]
    | halted h k =>
      rw [reached] at ih
      exact ih
    | failed e k =>
      rw [reached] at ih
      exact ih

end Machine

end FrameCode
