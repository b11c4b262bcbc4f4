import FrameCode.Proofs.StructuralFaults
import FrameCode.Xml.Tree

/-!
# Checked documents

The check of a program looks at its order numbers and its labels.  The operands of source text
have been checked by then, those of a document have not: whether they fit is only found out when
their instruction is executed.

`run_structural_iff` says which runs end with a structural fault.  An order number stands for
one instruction, and the machine holds the number of the instruction that it fetched last.
The invariant of a run is that it has failed structurally just if this instruction does not
fit its opcode.
-/

namespace FrameCode

namespace Machine

variable {m : Machine} {q : Program}

/-! ## The invariant -/

/-- The outcome is a structural failure just if the instruction with the order number that the
machine holds does not fit its opcode. -/
structure Located (q : Program) (o : Outcome) : Prop where
  program : o.machine.program = q
  fails_iff : o.Fails (·.isStructural = false) ↔
    ∀ i ∈ q.instructions, i.order = o.machine.order → i.Fits

/-- Before the first step the machine holds the number 0, which no instruction has. -/
theorem located_start (nonzero : ∀ i ∈ q.instructions, i.order ≠ 0) (program : m.program = q)
    (zero : m.order = 0) : Located q (.next m) where
  program := program
  fails_iff := by
    refine ⟨fun _ i mem eq => ?_, fun _ => trivial⟩
    exact absurd (eq.trans zero) (nonzero i mem)

/-- A step fails structurally just if its instruction does not fit, and no other instruction has
the order number that the machine holds then. -/
theorem located_step
    (distinct : ∀ i ∈ q.instructions, ∀ j ∈ q.instructions, i.order = j.order → i = j)
    (located : Located q (.next m)) : Located q m.step := by
  have program : m.program = q := located.program
  cases fetched : m.fetch? with
  | none =>
    rw [step_of_fetch?_none fetched]
    exact ⟨program, located.fails_iff⟩
  | some i =>
    obtain ⟨kept, -, order⟩ := step_fetched fetched
    have mem : i ∈ q.instructions := program ▸ List.mem_of_getElem? fetched
    have alone : (∀ j ∈ q.instructions, j.order = i.order → j.Fits) ↔ i.Fits := by
      constructor
      · intro all
        exact all i mem rfl
      · rintro fits j other eq
        rw [distinct j other i mem eq]
        exact fits
    refine ⟨kept.trans program, ?_⟩
    rw [order, alone, step_unstructural_iff]
    simp only [fetched, Option.some.injEq, forall_eq']

theorem located_after {p : Program} (ordered : p.ordered = .ok q) (program : m.program = q)
    (zero : m.order = 0) (n : Nat) : Located q (m.after n) := by
  obtain ⟨nonzero, distinct⟩ := Program.distinct_of_ordered ordered
  exact after_induction (located_start nonzero program zero) (fun k => located_step distinct) n

/-! ## Runs -/

/-- The flush at the end of a run adds no structural error, and takes none away. -/
theorem finish_structural_iff (ending : Except Fault Halt) (k : Machine) :
    (∃ e, (k.finish ending).1 = .error e ∧ e.isStructural = true) ↔
      ∃ cause, ending = .error cause ∧ cause.isStructural = true := by
  constructor
  · rintro ⟨e, failed, structural⟩
    rcases finish_eq_error failed with ⟨cause, ended, rfl⟩ | ⟨h, reason, -, -, rfl⟩
    · exact ⟨cause, ended, structural⟩
    · cases structural
  · rintro ⟨cause, rfl, structural⟩
    exact ⟨.fault cause, rfl, structural⟩

theorem finish_order (ending : Except Fault Halt) (k : Machine) :
    (k.finish ending).2.order = k.order := by
  obtain ⟨out, diagnostics, journal, left⟩ := k.finish_snd ending
  rw [left]

/-- A run ends with a structural error just if the instruction that was fetched last does not
fit its opcode. -/
theorem run_structural_iff (ordered : m.program.ordered = .ok q) {bound : Nat}
    {result : Except RunError Halt} {k : Machine} (ended : m.run bound = some (result, k)) :
    (∃ e, result = .error e ∧ e.isStructural = true) ↔
      ∃ i ∈ m.program.instructions, i.order = k.order ∧ ¬ i.Fits := by
  obtain ⟨ending, left, reached, finished⟩ := run_eq_some ordered ended
  obtain ⟨-, fails_iff⟩ := located_after (m := m.ready q) ordered rfl rfl bound
  have order : left.order = k.order := by
    rw [← finish_order ending left, finished]
  have structural_iff := finish_structural_iff ending left
  rw [Outcome.machine_of_ending? reached, order,
    Outcome.fails_iff_of_ending? reached] at fails_iff
  rw [finished] at structural_iff
  rw [structural_iff]
  simpa [Program.mem_of_ordered ordered] using not_congr fails_iff

end Machine

/-! ## Documents that pass the check -/

namespace CommandLine

/-- The check accepts a document whose instructions can be put in order and use no undefined
label. -/
theorem check_document {parse : Xml.Parser} {text : String} {p q : Program}
    (read : Program.ofXml parse text = .ok p) (ordered : p.ordered = .ok q)
    (defined : q.undefinedLabels = []) {files : String → Entry} {path : String}
    (found : (files path).text = .ok text) (document : isDocument text = true) :
    check parse files path =
      ⟨0, s!"OK: {path} ({q.instructions.length} instructions)\n", ""⟩ := by
  have loaded : loadOrdered parse files path = .ok q := by
    unfold loadOrdered load
    rw [found]
    simp only [Program.ofText, document, if_true, read, Except.mapError, ordered]
  unfold check
  rw [loaded]
  simp only [defined]

/-- **The check of a document leaves its operands to the run.**  A document with order numbers
and labels in order is accepted whatever its operands are, and whatever parser it is read by.
Its runs end with the exit status 32 just if the instruction that was fetched last does not
fit its opcode. -/
theorem check_leaves_operands {parse : Xml.Parser} {text : String} {p q : Program}
    (read : Program.ofXml parse text = .ok p) (ordered : p.ordered = .ok q)
    (defined : q.undefinedLabels = []) :
    (∀ (files : String → Entry) (path : String), (files path).text = .ok text →
      isDocument text = true →
      check parse files path = ⟨0, s!"OK: {path} ({q.instructions.length} instructions)\n", ""⟩) ∧
    ∀ (input : Input) (out diagnostics : Outlet) (bound : Nat) (result : Except RunError Halt)
      (k : Machine), (Machine.new p input out diagnostics).run bound = some (result, k) →
      ((report result k).status = 32 ↔
        ∃ i ∈ p.instructions, i.order = k.order ∧ ¬ i.Fits) := by
  constructor
  · intro files path found document
    exact check_document read ordered defined found document
  · intro input out diagnostics bound result k ended
    rw [Machine.report_status_eq_iff]
    exact Machine.run_structural_iff ordered ended

/-- A document with a `WRITE` that has no operands, after a `RETURN` at which every run fails. -/
theorem check_leaves_operands_unreached :
    let text :=
    "<program language=\"IPPcode24\"><instruction order=\"4\" opcode=\"WRITE\"/>"
      ++ "<instruction order=\"2\" opcode=\"RETURN\"/></program>"
    let p : Program := ⟨[⟨.known .write, [], 4⟩, ⟨.known .ret, [], 2⟩]⟩
    let q : Program := ⟨[⟨.known .ret, [], 2⟩, ⟨.known .write, [], 4⟩]⟩
    Program.ofXml Xml.parse? text = .ok p ∧ p.ordered = .ok q ∧
      (∀ (files : String → Entry) (path : String), (files path).text = .ok text →
        isDocument text = true →
        check Xml.parse? files path =
          ⟨0, s!"OK: {path} ({q.instructions.length} instructions)\n", ""⟩) ∧
      ∀ (input : Input) (out diagnostics : Outlet) (bound : Nat) (result : Except RunError Halt)
        (k : Machine), (Machine.new p input out diagnostics).run bound = some (result, k) →
        ((report result k).status = 32 ↔
          ∃ i ∈ p.instructions, i.order = k.order ∧ ¬ i.Fits) := by
  intro text p q
  have read : Program.ofXml Xml.parse? text = .ok p := by decide +kernel
  have ordered : p.ordered = .ok q := by decide
  have defined : q.undefinedLabels = [] := by decide
  exact ⟨read, ordered, check_leaves_operands read ordered defined⟩

/-- The runs of a document that the check accepts can end with the exit status 32: so does a
`WRITE` without operands. -/
theorem not_forall_checked_run_status_ne :
    ¬ ∀ (text : String) (p q : Program), Program.ofXml Xml.parse? text = .ok p →
      p.ordered = .ok q → q.undefinedLabels = [] →
      ∀ (input : Input) (bound : Nat) (result : Except RunError Halt) (k : Machine),
        (Machine.new p input .reliable .reliable).run bound = some (result, k) →
        (report result k).status ≠ 32 := by
  intro sound
  let text :=
    "<program language=\"IPPcode24\"><instruction order=\"1\" opcode=\"WRITE\"/></program>"
  let p : Program := ⟨[⟨.known .write, [], 1⟩]⟩
  have read : Program.ofXml Xml.parse? text = .ok p := by decide +kernel
  have ordered : p.ordered = .ok p := by decide
  have defined : p.undefinedLabels = [] := by decide
  exact sound text p p read ordered defined (.ofText "") 1 _ _ rfl rfl

end CommandLine

end FrameCode
