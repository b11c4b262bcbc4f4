import FrameCode.Proofs.LabelIndex
import Mathlib.Data.Set.Card
import Mathlib.Order.SuccPred.Archimedean

/-!
# Redefined labels

A program may define a label at several positions, `Program.sitesOf`.  The index keeps the
greatest of them, and building it lists the definitions of a label that was defined before: each
with the position which it replaces, the greatest one before its own.

`redefinitions_snoc` says what one more instruction adds to this list, and `labels_indexed` what
index and list a program has.
-/

namespace FrameCode

/-! ## Sites of a label -/

theorem Instruction.definedLabel?_eq_some_iff {i : Instruction} {name : String} :
    i.definedLabel? = some name ↔
    i.opcode? = some .label ∧ i.operands.head? = some (.label name) := by
  unfold definedLabel?
  split
  · next opcode operands => simp [opcode, operands]
  · next other =>
    refine iff_of_false nofun fun ⟨opcode, first⟩ => ?_
    obtain ⟨rest, operands⟩ := List.head?_eq_some_iff.1 first
    exact other name rest opcode operands

namespace Program

/-- The positions at which a label is defined: those of the instructions with the opcode `label`
and this label as their first operand. -/
def sitesOf (p : Program) (name : String) : Set Nat :=
  {n | ∃ i, p.instructions[n]? = some i ∧ i.opcode? = some .label ∧
    i.operands.head? = some (.label name)}

/-- The instruction at a position defines a label again. -/
@[mk_iff]
structure Redefines (p : Program) (n : Nat) (r : Labels.Redefinition) : Prop where
  here : n ∈ p.sitesOf r.label
  replaced : ∃ m, IsGreatest (p.sitesOf r.label ∩ Set.Iio n) m ∧ r.previous = m + 1
  position : r.position = n + 1

variable {p : Program} {is : List Instruction} {i : Instruction} {name : String} {n : Nat}
  {r : Labels.Redefinition}

theorem mem_sitesOf_iff : n ∈ p.sitesOf name ↔ p.labelAt? n = some name := by
  rw [labelAt?, Option.bind_eq_some_iff]
  exact exists_congr fun i => and_congr_right fun _ => Instruction.definedLabel?_eq_some_iff.symm

theorem lt_length_of_mem_sitesOf (mem : n ∈ p.sitesOf name) : n < p.instructions.length :=
  lt_length_of_labelAt? (mem_sitesOf_iff.1 mem)

theorem definesLast_iff_isGreatest : p.DefinesLast name n ↔ IsGreatest (p.sitesOf name) n := by
  constructor
  · rintro ⟨here, later⟩
    exact ⟨mem_sitesOf_iff.2 here, fun l mem =>
      Nat.le_of_not_lt fun after => later l after (mem_sitesOf_iff.1 mem)⟩
  · rintro ⟨here, greatest⟩
    exact ⟨mem_sitesOf_iff.1 here, fun l after defined =>
      Nat.not_le_of_lt after (greatest (mem_sitesOf_iff.2 defined))⟩

theorem defines_iff_nonempty : p.Defines name ↔ (p.sitesOf name).Nonempty := by
  constructor
  · rintro ⟨i, mem, defined⟩
    obtain ⟨n, found⟩ := List.mem_iff_getElem?.1 mem
    exact ⟨n, i, found, Instruction.definedLabel?_eq_some_iff.1 defined⟩
  · rintro ⟨n, i, found, defined⟩
    exact ⟨i, List.mem_of_getElem? found, Instruction.definedLabel?_eq_some_iff.2 defined⟩

/-- A definition redefines its label if there is one before it. -/
theorem exists_redefines_iff (mem : n ∈ p.sitesOf name) :
    (∃ r, r.label = name ∧ p.Redefines n r) ↔ ∃ m ∈ p.sitesOf name, m < n := by
  constructor
  · rintro ⟨r, rfl, -, ⟨m, ⟨⟨defined, before⟩, -⟩, -⟩, -⟩
    exact ⟨m, defined, before⟩
  · rintro ⟨m, defined, before⟩
    have bounded : BddAbove (p.sitesOf name ∩ Set.Iio n) :=
      ⟨n, fun _ within => Nat.le_of_lt within.2⟩
    obtain ⟨latest, greatest⟩ := bounded.exists_isGreatest_of_nonempty ⟨m, defined, before⟩
    exact ⟨⟨name, latest + 1, n + 1⟩, rfl, mem, ⟨latest, greatest, rfl⟩, rfl⟩

/-! ## One more instruction -/

theorem mem_sitesOf_snoc_of_lt (inside : n < is.length) :
    n ∈ sitesOf ⟨is ++ [i]⟩ name ↔ n ∈ sitesOf ⟨is⟩ name := by
  rw [mem_sitesOf_iff, mem_sitesOf_iff, labelAt?_snoc, if_pos inside]

theorem length_mem_sitesOf_snoc :
    is.length ∈ sitesOf ⟨is ++ [i]⟩ name ↔ i.definedLabel? = some name := by
  rw [mem_sitesOf_iff, labelAt?_snoc, if_neg (Nat.lt_irrefl _), if_pos rfl]

theorem sitesOf_snoc_inter (upTo : n ≤ is.length) :
    sitesOf ⟨is ++ [i]⟩ name ∩ Set.Iio n = sitesOf ⟨is⟩ name ∩ Set.Iio n := by
  ext m
  exact and_congr_left fun below => mem_sitesOf_snoc_of_lt (Nat.lt_of_lt_of_le below upTo)

theorem sitesOf_inter_length (p : Program) (name : String) :
    p.sitesOf name ∩ Set.Iio p.instructions.length = p.sitesOf name :=
  Set.inter_eq_left.2 fun _ mem => lt_length_of_mem_sitesOf mem

theorem Redefines.lt_length (redefines : p.Redefines n r) : n < p.instructions.length :=
  lt_length_of_mem_sitesOf redefines.here

/-- One more instruction leaves the redefinitions before it as they are. -/
theorem redefines_snoc_of_lt (inside : n < is.length) :
    Redefines ⟨is ++ [i]⟩ n r ↔ Redefines ⟨is⟩ n r := by
  rw [redefines_iff, redefines_iff, mem_sitesOf_snoc_of_lt inside,
    sitesOf_snoc_inter (Nat.le_of_lt inside)]

/-- The new instruction redefines a label that the index of the program before it has. -/
theorem redefines_snoc_length :
    Redefines ⟨is ++ [i]⟩ is.length r ↔
      i.definedLabel? = some r.label ∧ (Labels.build ⟨is⟩).1.resolve? r.label = some r.previous ∧
        r.position = is.length + 1 := by
  rw [redefines_iff, length_mem_sitesOf_snoc, sitesOf_snoc_inter (Nat.le_refl _),
    sitesOf_inter_length ⟨is⟩, Labels.resolve?_build_eq_some_iff]
  simp only [definesLast_iff_isGreatest]

end Program

/-! ## The list of redefinitions -/

namespace Labels

theorem registerAll_append (index : Labels) (first second : List (String × Nat)) :
    index.registerAll (first ++ second) =
      (((index.registerAll first).1.registerAll second).1,
        (index.registerAll first).2 ++ ((index.registerAll first).1.registerAll second).2) := by
  induction first generalizing index with
  | nil => rfl
  | cons definition first ih =>
    obtain ⟨name, position⟩ := definition
    rw [List.cons_append, registerAll, registerAll, ih]
    cases index.resolve? name <;> rfl

/-- A new instruction adds a redefinition if it defines a label that the index has already. -/
theorem redefinitions_snoc (is : List Instruction) (i : Instruction) :
    (build ⟨is ++ [i]⟩).2 =
      (build ⟨is⟩).2 ++ i.definedLabel?.toList.flatMap fun name =>
        ((build ⟨is⟩).1.resolve? name).toList.map (⟨name, ·, is.length + 1⟩) := by
  rw [build, Program.labels_snoc, registerAll_append]
  refine congrArg ((build ⟨is⟩).2 ++ ·) ?_
  cases i.definedLabel? with
  | none => rfl
  | some name =>
    rw [Option.toList_some, List.map_singleton, List.flatMap_singleton, registerAll, ← build]
    cases (build ⟨is⟩).1.resolve? name <;> rfl

/-- The redefinitions that are listed are those that the instructions make. -/
theorem mem_redefinitions_iff {p : Program} {r : Redefinition} :
    r ∈ (build p).2 ↔ ∃ n, p.Redefines n r := by
  obtain ⟨is⟩ := p
  -- The induction adds the last instruction, which leaves all earlier redefinitions as they are.
  induction is using List.reverseRecOn with
  | nil =>
    exact iff_of_false List.not_mem_nil fun ⟨_, redefines⟩ =>
      Nat.not_lt_zero _ redefines.lt_length
  | append_singleton is i ih =>
    have added : (r ∈ i.definedLabel?.toList.flatMap fun name =>
        ((build ⟨is⟩).1.resolve? name).toList.map (⟨name, ·, is.length + 1⟩)) ↔
          Program.Redefines ⟨is ++ [i]⟩ is.length r := by
      rw [Program.redefines_snoc_length]
      obtain ⟨label, previous, position⟩ := r
      simp only [List.mem_flatMap, List.mem_map, Option.mem_toList, Redefinition.mk.injEq]
      constructor
      · rintro ⟨_, defined, _, resolved, rfl, rfl, rfl⟩
        exact ⟨defined, resolved, rfl⟩
      · rintro ⟨defined, resolved, rfl⟩
        exact ⟨label, defined, previous, resolved, rfl, rfl, rfl⟩
    rw [redefinitions_snoc, List.mem_append, ih, added]
    constructor
    · rintro (⟨n, redefines⟩ | redefines)
      · exact ⟨n, (Program.redefines_snoc_of_lt redefines.lt_length).2 redefines⟩
      · exact ⟨_, redefines⟩
    · rintro ⟨n, redefines⟩
      have inside : n < (is ++ [i]).length := redefines.lt_length
      rw [List.length_append, List.length_singleton] at inside
      rcases Nat.lt_succ_iff_lt_or_eq.1 inside with before | rfl
      · exact .inl ⟨n, (Program.redefines_snoc_of_lt before).1 redefines⟩
      · exact .inr redefines

/-- The redefinitions are listed in program order. -/
theorem pairwise_redefinitions (p : Program) :
    (build p).2.Pairwise (·.position < ·.position) := by
  obtain ⟨is⟩ := p
  induction is using List.reverseRecOn with
  | nil => exact .nil
  | append_singleton is i ih =>
    rw [redefinitions_snoc, List.pairwise_append]
    refine ⟨ih, ?_, fun r mem s added => ?_⟩
    · cases i.definedLabel? with
      | none => exact .nil
      | some name =>
        rw [Option.toList_some, List.flatMap_singleton]
        cases (build ⟨is⟩).1.resolve? name <;> simp
    · obtain ⟨n, redefines⟩ := mem_redefinitions_iff.1 mem
      have inside : n < is.length := redefines.lt_length
      obtain ⟨_, -, _, -, rfl⟩ : ∃ name ∈ i.definedLabel?.toList, ∃ previous ∈
          ((build ⟨is⟩).1.resolve? name).toList, ⟨name, previous, is.length + 1⟩ = s := by
        simpa only [List.mem_flatMap, List.mem_map] using added
      rw [redefines.position]
      exact Nat.succ_lt_succ inside

/-! ## The number of labels -/

/-- The labels of an index. -/
def names (index : Labels) : List String := index.entries.map Prod.fst

theorem contains_iff_mem_names {index : Labels} {name : String} :
    index.contains name = true ↔ name ∈ index.names := by
  have absent : index.resolve? name = none ↔ name ∉ index.names := by
    rw [resolve?, List.lookup_eq_none_iff, names, List.mem_map]
    simp only [bne_iff_ne, not_exists, not_and]
    exact forall_congr' fun entry => imp_congr_right fun _ => not_congr eq_comm
  rw [contains, Option.isSome_iff_ne_none, Ne, absent, not_not]

theorem nodup_names_register {index : Labels} (distinct : index.names.Nodup) (name : String)
    (position : Nat) : (index.register name position).names.Nodup := by
  refine List.nodup_cons.2 ⟨fun mem => ?_, distinct.sublist (List.filter_sublist.map Prod.fst)⟩
  obtain ⟨entry, kept, same⟩ := List.mem_map.1 mem
  exact bne_iff_ne.1 (List.mem_filter.1 kept).2 same

theorem nodup_names_registerAll {index : Labels} (distinct : index.names.Nodup)
    (definitions : List (String × Nat)) : (index.registerAll definitions).1.names.Nodup := by
  induction definitions generalizing index with
  | nil => exact distinct
  | cons definition rest ih =>
    obtain ⟨name, position⟩ := definition
    have final := ih (nodup_names_register distinct name position)
    rw [registerAll]
    cases index.resolve? name <;> exact final

/-- The size of the index is the number of labels that the program defines. -/
theorem encard_defined (p : Program) :
    {name | (p.sitesOf name).Nonempty}.encard = (build p).1.size := by
  have new : empty.names.Nodup := List.nodup_nil
  have distinct : (build p).1.names.Nodup := nodup_names_registerAll new p.labels
  have defined : {name | (p.sitesOf name).Nonempty} =
      ((build p).1.names.toFinset : Set String) := by
    ext name
    rw [Set.mem_ofPred_eq, ← Program.defines_iff_nonempty, ← contains_build_iff,
      contains_iff_mem_names, Finset.mem_coe, List.mem_toFinset]
  rw [defined, Set.encard_coe_eq_coe_finsetCard, List.toFinset_card_of_nodup distinct, names,
    List.length_map, size]

/-! ## The index of a program -/

theorem resolve?_build_eq_some_iff_isGreatest {p : Program} {name : String} {c : Nat} :
    (build p).1.resolve? name = some c ↔ ∃ n, IsGreatest (p.sitesOf name) n ∧ c = n + 1 := by
  rw [resolve?_build_eq_some_iff]
  simp only [Program.definesLast_iff_isGreatest]

/-- **The index of a program.**  In any program, in order or not, a label is resolved to the
position after the greatest one at which it is defined, and to none if no instruction defines it.
The index contains the labels that it resolves, and its size is the number of the labels that are
defined.  The redefinitions are listed in program order: there is one for each instruction whose
label was defined before, with the position that it replaces, after the latest definition before
it, and its own. -/
theorem labels_indexed (p : Program) :
    (∀ name c, (build p).1.resolve? name = some c ↔
      ∃ n, IsGreatest (p.sitesOf name) n ∧ c = n + 1) ∧
    (∀ name, (build p).1.resolve? name = none ↔ p.sitesOf name = ∅) ∧
    (∀ name, (build p).1.contains name = true ↔ ∃ c, (build p).1.resolve? name = some c) ∧
    {name | (p.sitesOf name).Nonempty}.encard = (build p).1.size ∧
    (build p).2.Pairwise (·.position < ·.position) ∧
    (∀ r, r ∈ (build p).2 ↔ ∃ n, p.Redefines n r) ∧
    ∀ name, ∀ n ∈ p.sitesOf name,
      (∃ r ∈ (build p).2, r.label = name ∧ r.position = n + 1) ↔ ∃ m ∈ p.sitesOf name, m < n := by
  refine ⟨fun name c => resolve?_build_eq_some_iff_isGreatest, fun name => ?_,
    fun name => Option.isSome_iff_exists, encard_defined p, pairwise_redefinitions p,
    fun r => mem_redefinitions_iff, fun name n mem => ?_⟩
  · rw [← Option.not_isSome_iff_eq_none, ← contains, contains_build_iff,
      Program.defines_iff_nonempty, Set.not_nonempty_iff_eq_empty]
  · rw [← Program.exists_redefines_iff mem]
    constructor
    · rintro ⟨r, listed, label, position⟩
      obtain ⟨k, redefines⟩ := mem_redefinitions_iff.1 listed
      obtain rfl : k = n := Nat.succ.inj (redefines.position.symm.trans position)
      exact ⟨r, label, redefines⟩
    · rintro ⟨r, label, redefines⟩
      exact ⟨r, mem_redefinitions_iff.2 ⟨n, redefines⟩, label, redefines.position⟩

/-- A label that is defined three times is replaced twice, and the second time it is the position
of the second definition that is replaced.  A jump to a label, a definition of something that is
no label and an operand after the first one define nothing. -/
theorem labels_indexed_chain :
    let i (op : Opcode) (xs : List Operand) (order : Nat) : Instruction := ⟨.known op, xs, order⟩
    let p : Program := ⟨[i .label [.label "x"] 7, i .jump [.label "x"] 7, i .label [.label "x"] 3,
      i .label [.literal .nil] 0, i .label [.label "y"] 5, i .label [.label "x", .label "z"] 1]⟩
    IsGreatest (p.sitesOf "x") 5 ∧ p.sitesOf "z" = ∅ ∧
      {name | (p.sitesOf name).Nonempty}.encard = (2 : Nat) ∧
      (build p).2 = [⟨"x", 1, 3⟩, ⟨"x", 3, 6⟩] ∧ p.Redefines 2 ⟨"x", 1, 3⟩ ∧
      p.Redefines 5 ⟨"x", 3, 6⟩ := by
  intro i p
  obtain ⟨resolved, missing, -, size, -, listed, -⟩ := labels_indexed p
  have redefinitions : (build p).2 = [⟨"x", 1, 3⟩, ⟨"x", 3, 6⟩] := by decide
  have redefines {n : Nat} {r : Redefinition} (mem : r ∈ (build p).2)
      (position : r.position = n + 1) :
      p.Redefines n r := by
    obtain ⟨k, redefines⟩ := (listed r).1 mem
    obtain rfl : k = n := Nat.succ.inj (redefines.position.symm.trans position)
    exact redefines
  obtain ⟨n, greatest, position⟩ := (resolved "x" 6).1 (by decide)
  obtain rfl : 5 = n := Nat.succ.inj position
  have first : (⟨"x", 1, 3⟩ : Redefinition) ∈ (build p).2 := by simp [redefinitions]
  have second : (⟨"x", 3, 6⟩ : Redefinition) ∈ (build p).2 := by simp [redefinitions]
  exact ⟨greatest, (missing "z").1 (by decide), size, redefinitions, redefines first rfl,
    redefines second rfl⟩

end Labels

end FrameCode
