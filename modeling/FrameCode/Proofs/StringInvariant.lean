import FrameCode.Proofs.AlikeRuns
import FrameCode.Proofs.ValidProgram

/-!
# Well-formed strings

Every string that a run holds is in a well-formed stored form, if the literals of its program are.
This is the diagonal of the relation between alike runs: a machine is alike to itself just if its
program and its strings are well-formed, and a run is alike to itself.

A program that was read from source text has well-formed literals.
-/

namespace FrameCode

/-! ## The values of a machine -/

/-- The values of the variables that have one. -/
def Frame.values (f : Frame) : List Value := f.cells.filterMap Cell.content

/-- The values in the global frame, in the local frames and in the temporary frame. -/
def Memory.values (m : Memory) : List Value :=
  m.globals.values ++ m.locals.flatMap Frame.values ++ m.temporary.frame?.elim [] Frame.values

/-- The values in the memory and on the data stack. -/
def Machine.values (m : Machine) : List Value := m.memory.values ++ m.stack

theorem Frame.wellFormed_of_alike {f : Frame} (alike : f.Alike f) :
    ∀ v ∈ f.values, v.WellFormed := by
  intro v mem
  obtain ⟨c, inside, content⟩ := List.mem_filterMap.1 mem
  have contents := (List.forall₂_same.1 alike c inside).content
  rw [content] at contents
  rcases rel_cases contents with ⟨here, -⟩ | ⟨v, w, here, there, values⟩
  · cases here
  · cases here
    cases there
    exact Value.alike_self_iff.1 values

theorem Memory.wellFormed_of_alike {m : Memory} (alike : m.Alike m) :
    ∀ v ∈ m.values, v.WellFormed := by
  intro v mem
  rcases List.mem_append.1 mem with mem | mem
  · rcases List.mem_append.1 mem with mem | mem
    · exact Frame.wellFormed_of_alike alike.globals v mem
    · obtain ⟨f, inside, mem⟩ := List.mem_flatMap.1 mem
      exact Frame.wellFormed_of_alike (List.forall₂_same.1 alike.locals f inside) v mem
  · rcases rel_cases alike.temporary.frame? with ⟨here, -⟩ | ⟨f, g, here, there, frames⟩
    · rw [here] at mem
      cases mem
    · obtain rfl := Option.some.inj (here.symm.trans there)
      rw [here] at mem
      exact Frame.wellFormed_of_alike frames v mem

/-- The strings of a machine that is alike to itself are well-formed. -/
theorem Machine.wellFormed_of_alike {m : Machine} (alike : m.Alike m) :
    ∀ v ∈ m.values, v.WellFormed := by
  intro v mem
  rcases List.mem_append.1 mem with mem | mem
  · exact Memory.wellFormed_of_alike alike.memory v mem
  · exact Value.alike_self_iff.1 (List.forall₂_same.1 alike.stack v mem)

/-- Every state of a run of well-formed literals is alike to itself. -/
theorem Machine.Visits.alike {m k : Machine} (visited : m.Visits k) (alike : m.Alike m) :
    k.Alike k := by
  cases visited with
  | unordered => exact alike.reset
  | after n success =>
    have started := alike.start
    rw [success] at started
    cases started with
    | ok started => exact (started.after n).machine

/-! ## Literals of source text -/

namespace Source

theorem wellFormed_of_readLiteral {t : Token} {v : Value} (read : readLiteral t = .ok v) :
    v.WellFormed := by
  unfold readLiteral at read
  repeat' split at read
  all_goals cases read
  all_goals trivial

theorem wellFormed_of_readOperand {s : Slot} {t : Token} {x : Operand}
    (read : readOperand s t = .ok x) : x.WellFormed := by
  cases s with
  | place =>
    obtain ⟨p, _, rfl⟩ := map_eq_ok_iff.1 read
    trivial
  | symbol =>
    replace read : readSymbol t = .ok x := read
    unfold readSymbol at read
    split at read
    · cases read
      trivial
    · obtain ⟨v, found, rfl⟩ := map_eq_ok_iff.1 read
      exact wellFormed_of_readLiteral found
  | label =>
    replace read : readLabel t = .ok x := read
    unfold readLabel at read
    repeat' split at read
    all_goals cases read
    trivial
  | type =>
    replace read : readType t = .ok x := read
    unfold readType at read
    repeat' split at read
    all_goals cases read
    trivial

end Source

/-- What source text holds has well-formed literals. -/
theorem Program.wellFormed_of_ofSource {text : String} {p : Program}
    (read : Program.ofSource text = .ok p) : p.WellFormed := by
  obtain ⟨is, found, rfl⟩ := map_eq_ok_iff.1 read
  intro i mem
  have literals := Source.forall₂_of_readLines (R := fun _ x => x.WellFormed)
    (fun _ read => Source.wellFormed_of_readOperand read) found
  obtain ⟨op, -, operands⟩ := literals.1 i mem
  exact forall_of_forall₂ operands

/-- **Every string of a run is well-formed.**  If the literals of a program are well-formed, so is
every string in the global frame, in a local frame, in the temporary frame or on the data stack,
in every state that a run visits on any input and with any outlets.  The literals of a program
that was read from source text are well-formed. -/
theorem Machine.wellFormed_of_visits (p : Program) :
    (p.WellFormed → ∀ (input : Input) (out diagnostics : Outlet) (k : Machine),
      (Machine.new p input out diagnostics).Visits k → ∀ v ∈ k.values, v.WellFormed) ∧
    ∀ text, Program.ofSource text = .ok p → p.WellFormed := by
  refine ⟨fun formed input out diagnostics k visited => ?_, fun text =>
    Program.wellFormed_of_ofSource⟩
  have alike := Machine.Alike.new (Program.alike_self formed) input out (.refl diagnostics)
  exact Machine.wellFormed_of_alike (visited.alike alike)

/-- A line with a backslash and two digits is joined to a code and pushed: the backslash that was
read is on the stack with a code of its own. -/
theorem Machine.wellFormed_of_visits_read :
    let x : Place := ⟨.global, "x"⟩
    let p : Program := ⟨[⟨.known .defvar, [.place x], 1⟩,
      ⟨.known .read, [.place x, .type "string"], 2⟩,
      ⟨.known .concat, [.place x, .literal (.str "\\035"), .place x], 3⟩,
      ⟨.known .pushs, [.place x], 4⟩]⟩
    let text :=
      ".IPPcode24\nDEFVAR GF@x\nREAD GF@x string\nCONCAT GF@x string@\\035 GF@x\nPUSHS GF@x"
    let m := Machine.new p (.ofText "\\12") .reliable .reliable
    Program.ofSource text = .ok p ∧ p.WellFormed ∧
      (∃ k, m.Visits k ∧ k.stack = [.str "\\035\\09212"]) ∧
      ∀ k, m.Visits k → ∀ v ∈ k.values, v.WellFormed := by
  intro x p text m
  have read : Program.ofSource text = .ok p := by decide
  have formed : p.WellFormed := (wellFormed_of_visits p).2 text read
  refine ⟨read, formed, ?_, (wellFormed_of_visits p).1 formed _ _ _⟩
  exact ⟨_, .after 4 rfl, by rfl⟩

end FrameCode
