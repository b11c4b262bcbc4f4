import FrameCode.Labels
import Mathlib.Data.List.Induction

/-!
# The label index

The index of a program maps a label to the position after the last instruction that defines it:
`resolve?_build_eq_some_iff` says so for all programs, in order or not.  It has the labels that
some instruction defines, `contains_build_iff`.
-/

namespace FrameCode

namespace Program

/-- The label that the instruction at a position defines. -/
def labelAt? (p : Program) (n : Nat) : Option String :=
  p.instructions[n]?.bind Instruction.definedLabel?

/-- The instruction at a position defines the label, and no later one does. -/
structure DefinesLast (p : Program) (name : String) (n : Nat) : Prop where
  here : p.labelAt? n = some name
  later : ∀ l, n < l → p.labelAt? l ≠ some name

/-- Some instruction defines the label. -/
def Defines (p : Program) (name : String) : Prop :=
  ∃ i ∈ p.instructions, i.definedLabel? = some name

instance (p : Program) (name : String) : Decidable (p.Defines name) :=
  inferInstanceAs (Decidable (∃ i ∈ p.instructions, i.definedLabel? = some name))

variable {is : List Instruction} {i : Instruction} {name : String}

theorem labelAt?_snoc (is : List Instruction) (i : Instruction) (n : Nat) :
    labelAt? ⟨is ++ [i]⟩ n =
      if n < is.length then labelAt? ⟨is⟩ n
      else if n = is.length then i.definedLabel? else none := by
  unfold labelAt?
  by_cases inside : n < is.length
  · rw [if_pos inside, List.getElem?_append_left inside]
  · rw [if_neg inside, List.getElem?_append_right (Nat.le_of_not_lt inside)]
    by_cases last : n = is.length
    · rw [if_pos last, last, Nat.sub_self]
      rfl
    · rw [if_neg last, List.getElem?_singleton, if_neg (by omega)]
      rfl

theorem lt_length_of_labelAt? {p : Program} {n : Nat} (defined : p.labelAt? n = some name) :
    n < p.instructions.length := by
  obtain ⟨i, found, -⟩ := Option.bind_eq_some_iff.1 defined
  exact (List.getElem?_eq_some_iff.1 found).1

/-- The last definition is the last instruction, if that defines the label, or else
an earlier one. -/
theorem definesLast_snoc_iff {n : Nat} :
    DefinesLast ⟨is ++ [i]⟩ name n ↔
      if i.definedLabel? = some name then n = is.length else DefinesLast ⟨is⟩ name n := by
  split
  · next defines =>
    constructor
    · rintro ⟨here, later⟩
      have inside : n < (is ++ [i]).length := lt_length_of_labelAt? here
      rw [List.length_append, List.length_singleton] at inside
      by_contra other
      refine later is.length (by omega) ?_
      rw [labelAt?_snoc, if_neg (Nat.lt_irrefl _), if_pos rfl, defines]
    · rintro rfl
      refine ⟨?_, fun l after => ?_⟩
      · rw [labelAt?_snoc, if_neg (Nat.lt_irrefl _), if_pos rfl, defines]
      · rw [labelAt?_snoc, if_neg (by omega), if_neg (by omega)]
        exact nofun
  · next other =>
    -- The new instruction does not define the label, so the label is defined where it was before.
    have same (l : Nat) : labelAt? ⟨is ++ [i]⟩ l = some name ↔ labelAt? ⟨is⟩ l = some name := by
      rw [labelAt?_snoc]
      split
      · exact Iff.rfl
      · next past =>
        have absent : labelAt? ⟨is⟩ l ≠ some name := fun defined =>
          past (lt_length_of_labelAt? defined)
        split
        · exact iff_of_false other absent
        · exact iff_of_false nofun absent
    constructor
    · rintro ⟨here, later⟩
      exact ⟨(same n).1 here, fun l after => mt (same l).2 (later l after)⟩
    · rintro ⟨here, later⟩
      exact ⟨(same n).2 here, fun l after => mt (same l).1 (later l after)⟩

/-! ## Definitions in program order -/

theorem labelsFrom_snoc (position : Nat) (is : List Instruction) (i : Instruction) :
    labelsFrom position (is ++ [i]) =
      labelsFrom position is ++ i.definedLabel?.toList.map (·, position + is.length + 1) := by
  induction is generalizing position with
  | nil =>
    simp only [List.nil_append, labelsFrom]
    cases i.definedLabel? <;> rfl
  | cons j is ih =>
    rw [List.cons_append, labelsFrom, labelsFrom, ih, List.length_cons,
      Nat.add_right_comm position 1, Nat.add_assoc position]
    cases j.definedLabel? <;> rfl

theorem labels_snoc (is : List Instruction) (i : Instruction) :
    labels ⟨is ++ [i]⟩ = labels ⟨is⟩ ++ i.definedLabel?.toList.map (·, is.length + 1) := by
  rw [labels, labels, labelsFrom_snoc, Nat.zero_add]

theorem map_fst_labelsFrom (position : Nat) (is : List Instruction) :
    (labelsFrom position is).map Prod.fst = is.filterMap Instruction.definedLabel? := by
  induction is generalizing position with
  | nil => rfl
  | cons i is ih =>
    rw [labelsFrom]
    cases defined : i.definedLabel? with
    | none => rw [List.filterMap_cons_none defined, ← ih]
    | some name => rw [List.filterMap_cons_some defined, List.map_cons, ih]

/-- Looked up from its end, the list of definitions gives the last definition. -/
theorem lookup_reverse_labelsFrom {position c : Nat} :
    (labelsFrom position is).reverse.lookup name = some c ↔
      ∃ n, DefinesLast ⟨is⟩ name n ∧ c = position + n + 1 := by
  induction is using List.reverseRecOn with
  | nil =>
    refine iff_of_false nofun ?_
    rintro ⟨n, ⟨here, -⟩, -⟩
    exact Nat.not_lt_zero n (lt_length_of_labelAt? here)
  | append_singleton is i ih =>
    rw [labelsFrom_snoc, List.reverse_append, List.lookup_append]
    simp only [definesLast_snoc_iff]
    cases defined : i.definedLabel? with
    | none => simpa using ih
    | some other =>
      by_cases same : other = name
      · simp [same, eq_comm]
      · have apart : (name == other) = false := beq_eq_false_iff_ne.2 (Ne.symm same)
        simpa [List.lookup_cons, apart, same] using ih

end Program

namespace Labels

/-- After a list of definitions a label is where the last of them put it. -/
theorem resolve?_registerAll (index : Labels) (definitions : List (String × Nat))
    (name : String) :
    (index.registerAll definitions).1.resolve? name =
      (definitions.reverse.lookup name).or (index.resolve? name) := by
  induction definitions generalizing index with
  | nil => rfl
  | cons definition rest ih =>
    obtain ⟨label, position⟩ := definition
    have final : (index.registerAll ((label, position) :: rest)).1 =
        ((index.register label position).registerAll rest).1 := by
      rw [registerAll]
      cases index.resolve? label <;> rfl
    rw [final, ih, resolve?_register, List.reverse_cons, List.lookup_append, Option.or_assoc,
      List.lookup_cons]
    by_cases same : name = label
    · simp [same]
    · simp [same, beq_eq_false_iff_ne.2 same]

theorem resolve?_build (p : Program) (name : String) :
    (build p).1.resolve? name = p.labels.reverse.lookup name := by
  rw [build, resolve?_registerAll]
  exact Option.or_none

/-- A label is resolved to the position after its last definition. -/
theorem resolve?_build_eq_some_iff {p : Program} {name : String} {c : Nat} :
    (build p).1.resolve? name = some c ↔ ∃ n, p.DefinesLast name n ∧ c = n + 1 := by
  rw [resolve?_build, Program.labels, Program.lookup_reverse_labelsFrom]
  simp only [Nat.zero_add]

/-- The index has the labels that some instruction defines. -/
theorem contains_build_iff {p : Program} {name : String} :
    (build p).1.contains name = true ↔ p.Defines name := by
  have absent : (build p).1.resolve? name = none ↔ ¬p.Defines name := by
    rw [resolve?_build, List.lookup_eq_none_iff, Program.Defines, ← List.mem_filterMap,
      ← Program.map_fst_labelsFrom 0, ← Program.labels, List.mem_map]
    simp only [List.mem_reverse, bne_iff_ne, ne_eq, not_exists, not_and]
    exact forall_congr' fun definition => imp_congr_right fun _ => not_congr eq_comm
  rw [contains, Option.isSome_iff_ne_none, Ne, absent, not_not]

end Labels

end FrameCode
