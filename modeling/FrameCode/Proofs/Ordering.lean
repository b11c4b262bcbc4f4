import FrameCode.Program
import Mathlib.Data.List.Nodup
import Mathlib.Data.List.Perm.Basic

/-!
# Ordered programs

Sorting rearranges the instructions of a program.  A program can be put in order just if
its order numbers are positive and occur once each, so that a number stands for one
instruction.  There is one such order then: `ordered_eq_ok_iff` describes it as the one
rearrangement with increasing numbers.

Otherwise the program is refused for the first instruction, as it is listed, whose number is
zero or stands before it.  The order does not depend on how the instructions are listed, but
the refusal does.
-/

namespace FrameCode.Program

theorem insertOrdered_perm (i : Instruction) (is : List Instruction) :
    (insertOrdered i is).Perm (i :: is) := by
  induction is with
  | nil => exact .refl _
  | cons j is ih =>
    unfold insertOrdered
    split
    · exact .refl _
    · exact (ih.cons j).trans (.swap i j is)

theorem sort_perm (is : List Instruction) : (sort is).Perm is := by
  induction is with
  | nil => exact .refl _
  | cons i is ih => exact (insertOrdered_perm i (sort is)).trans (ih.cons i)

/-- Putting a program in order keeps its instructions. -/
theorem mem_of_ordered {p q : Program} (ordered : p.ordered = .ok q) {i : Instruction} :
    i ∈ q.instructions ↔ i ∈ p.instructions := by
  unfold Program.ordered at ordered
  split at ordered
  · cases ordered
  · cases ordered
    exact (sort_perm p.instructions).mem_iff

/-- Order numbers are accepted if none is zero, none is among those seen before and none is there
twice. -/
theorem orderFault?_eq_none_iff {seen : List Nat} {is : List Instruction} :
    orderFault? seen is = none ↔
      (∀ i ∈ is, i.order ≠ 0 ∧ i.order ∉ seen) ∧ (is.map Instruction.order).Nodup := by
  induction is generalizing seen with
  | nil => simp [orderFault?]
  | cons i is ih =>
    unfold orderFault?
    rw [List.contains_eq_mem, List.forall_mem_cons, List.map_cons, List.nodup_cons]
    by_cases zero : i.order = 0
    · simp [zero]
    by_cases old : i.order ∈ seen
    · simp [zero, old]
    simp only [zero, old, decide_false, Bool.false_eq_true, if_false, ih, List.mem_cons, not_or]
    constructor
    · rintro ⟨others, apart⟩
      have new : i.order ∉ is.map Instruction.order := by
        rw [List.mem_map]
        rintro ⟨j, mem, eq⟩
        exact (others j mem).2.1 eq
      exact ⟨⟨⟨zero, not_false⟩, fun j mem => ⟨(others j mem).1, (others j mem).2.2⟩⟩, new, apart⟩
    · rintro ⟨⟨-, others⟩, new, apart⟩
      refine ⟨fun j mem => ⟨(others j mem).1, fun eq => ?_, (others j mem).2⟩, apart⟩
      exact new (eq ▸ List.mem_map_of_mem mem)

/-- Once a program is in order, no number is zero and each number stands for one instruction. -/
theorem distinct_of_ordered {p q : Program} (ordered : p.ordered = .ok q) :
    (∀ i ∈ q.instructions, i.order ≠ 0) ∧
      ∀ i ∈ q.instructions, ∀ j ∈ q.instructions, i.order = j.order → i = j := by
  have accepted : orderFault? [] p.instructions = none := by
    unfold Program.ordered at ordered
    split at ordered
    · cases ordered
    · assumption
  obtain ⟨nonzero, apart⟩ := orderFault?_eq_none_iff.1 accepted
  refine ⟨fun i mem => (nonzero i ((mem_of_ordered ordered).1 mem)).1, fun i first j second => ?_⟩
  exact List.inj_on_of_nodup_map apart ((mem_of_ordered ordered).1 first)
    ((mem_of_ordered ordered).1 second)

/-! ## The one order -/

/-- The order numbers of the instructions increase. -/
abbrev Increasing (is : List Instruction) : Prop := is.Pairwise (·.order < ·.order)

theorem insertOrdered_sorted {i : Instruction} {is : List Instruction}
    (sorted : is.Pairwise (·.order ≤ ·.order)) :
    (insertOrdered i is).Pairwise (·.order ≤ ·.order) := by
  induction is with
  | nil => exact List.pairwise_singleton _ i
  | cons j is ih =>
    obtain ⟨below, sortedRest⟩ := List.pairwise_cons.1 sorted
    unfold insertOrdered
    split
    · next le =>
      refine List.pairwise_cons.2 ⟨fun x mem => ?_, sorted⟩
      rcases List.mem_cons.1 mem with rfl | mem
      · exact le
      · exact Nat.le_trans le (below x mem)
    · next notLe =>
      refine List.pairwise_cons.2 ⟨fun x mem => ?_, ih sortedRest⟩
      rcases List.mem_cons.1 ((insertOrdered_perm i is).mem_iff.1 mem) with rfl | mem
      · exact Nat.le_of_not_le notLe
      · exact below x mem

theorem sort_sorted (is : List Instruction) : (sort is).Pairwise (·.order ≤ ·.order) := by
  induction is with
  | nil => exact .nil
  | cons i is ih => exact insertOrdered_sorted ih

/-- A list of increasing numbers is what sorting makes of each of its rearrangements. -/
theorem sort_eq_of_perm {is js : List Instruction} (perm : js.Perm is)
    (increasing : Increasing js) :
    sort is = js := by
  have sorted : js.Pairwise (·.order ≤ ·.order) := increasing.imp Nat.le_of_lt
  have apart : (js.map Instruction.order).Nodup :=
    List.pairwise_map.2 (increasing.imp Nat.ne_of_lt)
  have rearranged : (sort is).Perm js := (sort_perm is).trans perm.symm
  refine rearranged.eq_of_pairwise (fun i j first second le ge => ?_) (sort_sorted is) sorted
  exact List.inj_on_of_nodup_map apart (rearranged.mem_iff.1 first) second (Nat.le_antisymm le ge)

/-- A program can be put in order just if its order numbers are positive and occur once each. -/
theorem exists_ordered_iff {p : Program} :
    (∃ q, p.ordered = .ok q) ↔
      (∀ i ∈ p.instructions, i.order ≠ 0) ∧ (p.instructions.map Instruction.order).Nodup := by
  have accepted : orderFault? [] p.instructions = none ↔ _ := orderFault?_eq_none_iff
  simp only [List.not_mem_nil, not_false_eq_true, and_true] at accepted
  rw [← accepted, ordered]
  cases orderFault? [] p.instructions <;> simp

/-- The program in order is the rearrangement with positive and increasing order numbers. -/
theorem ordered_eq_ok_iff {p q : Program} :
    p.ordered = .ok q ↔ q.instructions.Perm p.instructions ∧ Increasing q.instructions ∧
      ∀ i ∈ q.instructions, i.order ≠ 0 := by
  constructor
  · intro ordered
    obtain ⟨-, apart⟩ := exists_ordered_iff.1 ⟨q, ordered⟩
    obtain rfl : (⟨sort p.instructions⟩ : Program) = q := by
      unfold Program.ordered at ordered
      split at ordered
      · cases ordered
      · exact Except.ok.inj ordered
    have perm := sort_perm p.instructions
    have distinct := List.pairwise_map.1 ((perm.map Instruction.order).nodup_iff.2 apart)
    exact ⟨perm, (sort_sorted p.instructions).imp₂ (fun _ _ => Nat.lt_of_le_of_ne) distinct,
      (distinct_of_ordered ordered).1⟩
  · rintro ⟨perm, increasing, positive⟩
    have apart : (p.instructions.map Instruction.order).Nodup :=
      (perm.map Instruction.order).nodup_iff.1 (List.pairwise_map.2 (increasing.imp Nat.ne_of_lt))
    obtain ⟨r, ordered⟩ := exists_ordered_iff.2
      ⟨fun i mem => positive i (perm.mem_iff.2 mem), apart⟩
    rw [ordered]
    unfold Program.ordered at ordered
    split at ordered
    · cases ordered
    · rw [← Except.ok.inj ordered, sort_eq_of_perm perm increasing]

/-- Putting a program in order again changes nothing. -/
theorem ordered_of_ordered {p q : Program} (ordered : p.ordered = .ok q) : q.ordered = .ok q := by
  obtain ⟨-, increasing, positive⟩ := ordered_eq_ok_iff.1 ordered
  exact ordered_eq_ok_iff.2 ⟨.refl _, increasing, positive⟩

/-- An order is the same however the instructions were listed. -/
theorem ordered_of_perm {p q r : Program} (ordered : p.ordered = .ok q)
    (perm : r.instructions.Perm p.instructions) : r.ordered = .ok q := by
  obtain ⟨rearranged, increasing, positive⟩ := ordered_eq_ok_iff.1 ordered
  exact ordered_eq_ok_iff.2 ⟨rearranged.trans perm.symm, increasing, positive⟩

/-! ## The first refused instruction -/

/-- The instruction is refused after those that are listed before it: its number is zero or one of
theirs. -/
inductive RefusedAfter (before : List Instruction) (i : Instruction) : OrderError → Prop
  | zero : i.order = 0 → RefusedAfter before i .zero
  | duplicate : i.order ≠ 0 → i.order ∈ before.map Instruction.order →
    RefusedAfter before i (.duplicate i.order)

/-- One of the instructions is refused, and those before it have positive numbers that
occur once each. -/
def FirstRefused (is : List Instruction) (e : OrderError) : Prop :=
  ∃ before i after, is = before ++ i :: after ∧ (∀ j ∈ before, j.order ≠ 0) ∧
    (before.map Instruction.order).Nodup ∧ RefusedAfter before i e

/-- Past instructions that are accepted, the scan goes on with their numbers. -/
theorem orderFault?_append_of_none {seen : List Nat} {before : List Instruction}
    (accepted : orderFault? seen before = none) (is : List Instruction) :
    orderFault? seen (before ++ is) =
      orderFault? ((before.map Instruction.order).reverse ++ seen) is := by
  induction before generalizing seen with
  | nil => rfl
  | cons i before ih =>
    unfold orderFault? at accepted
    split at accepted
    · cases accepted
    split at accepted
    · cases accepted
    next positive new =>
    rw [List.cons_append, orderFault?, if_neg positive, if_neg new, ih accepted, List.map_cons,
      List.reverse_cons, List.append_assoc, List.singleton_append]

/-- A fault is found at the end of a part that is accepted. -/
theorem exists_accepted_of_orderFault? {seen : List Nat} {is : List Instruction} {e : OrderError}
    (found : orderFault? seen is = some e) :
    ∃ before i after, is = before ++ i :: after ∧ orderFault? seen before = none ∧
      ((i.order = 0 ∧ e = .zero) ∨
        (i.order ≠ 0 ∧ i.order ∈ before.map Instruction.order ++ seen ∧
          e = .duplicate i.order)) := by
  induction is generalizing seen with
  | nil => cases found
  | cons i is ih =>
    unfold orderFault? at found
    split at found
    · next zero =>
      cases found
      exact ⟨[], i, is, rfl, rfl, .inl ⟨zero, rfl⟩⟩
    split at found
    · next positive old =>
      cases found
      exact ⟨[], i, is, rfl, rfl, .inr ⟨positive, List.contains_iff_mem.1 old, rfl⟩⟩
    · next positive new =>
      obtain ⟨before, j, after, rfl, accepted, refused⟩ := ih found
      refine ⟨i :: before, j, after, rfl, ?_, ?_⟩
      · rw [orderFault?, if_neg positive, if_neg new, accepted]
      · refine refused.imp_right fun ⟨positive, old, eq⟩ => ⟨positive, ?_, eq⟩
        exact List.perm_middle.mem_iff.1 old

/-- The scan finds the first instruction that is refused. -/
theorem orderFault?_eq_some_iff {is : List Instruction} {e : OrderError} :
    orderFault? [] is = some e ↔ FirstRefused is e := by
  constructor
  · intro found
    obtain ⟨before, i, after, rfl, accepted, refused⟩ := exists_accepted_of_orderFault? found
    obtain ⟨positive, apart⟩ := orderFault?_eq_none_iff.1 accepted
    refine ⟨before, i, after, rfl, fun j mem => (positive j mem).1, apart, ?_⟩
    rcases refused with ⟨zero, rfl⟩ | ⟨nonzero, old, rfl⟩
    · exact .zero zero
    · exact .duplicate nonzero (by rwa [List.append_nil] at old)
  · rintro ⟨before, i, after, rfl, positive, apart, refused⟩
    have accepted : orderFault? [] before = none :=
      orderFault?_eq_none_iff.2 ⟨fun j mem => ⟨positive j mem, List.not_mem_nil⟩, apart⟩
    rw [orderFault?_append_of_none accepted, List.append_nil]
    cases refused with
    | zero zero => rw [orderFault?, if_pos zero]
    | duplicate nonzero old =>
      have seen : (before.map Instruction.order).reverse.contains i.order = true :=
        List.contains_iff_mem.2 (List.mem_reverse.2 old)
      rw [orderFault?, if_neg nonzero, if_pos seen]

theorem ordered_eq_error_iff {p : Program} {e : OrderError} :
    p.ordered = .error e ↔ FirstRefused p.instructions e := by
  rw [← orderFault?_eq_some_iff, ordered]
  cases orderFault? [] p.instructions <;> simp

theorem exists_refused_iff {p : Program} :
    (∃ e, p.ordered = .error e) ↔
      (∃ i ∈ p.instructions, i.order = 0) ∨
        ∃ n, 2 ≤ (p.instructions.map Instruction.order).count n := by
  have refused : (∃ e, p.ordered = .error e) ↔ ¬∃ q, p.ordered = .ok q := by
    cases p.ordered <;> simp
  rw [refused, exists_ordered_iff, not_and_or, List.nodup_iff_count_le_one]
  simp only [not_forall, Classical.not_not, exists_prop, Nat.not_le]
  rfl

/-- **The order of a program.**  A program is refused just if an order number is zero or
occurs twice, and then for the first instruction, in listing order, whose number is zero or
one of those before it.  Otherwise its instructions are rearranged so that their numbers
increase.  The order is the same for every listing of the instructions, and to put it in order
again changes nothing. -/
theorem ordered_or_refused (p : Program) :
    ((∃ e, p.ordered = .error e) ↔
      (∃ i ∈ p.instructions, i.order = 0) ∨
        ∃ n, 2 ≤ (p.instructions.map Instruction.order).count n) ∧
    (∀ e, p.ordered = .error e ↔ FirstRefused p.instructions e) ∧
    (∀ q, p.ordered = .ok q →
      q.instructions.Perm p.instructions ∧ Increasing q.instructions ∧
        (∀ r : Program, r.instructions.Perm p.instructions → r.ordered = .ok q) ∧
        q.ordered = .ok q) := by
  refine ⟨exists_refused_iff, fun e => ordered_eq_error_iff, fun q ordered => ?_⟩
  obtain ⟨perm, increasing, -⟩ := ordered_eq_ok_iff.1 ordered
  exact ⟨perm, increasing, fun r => ordered_of_perm ordered, ordered_of_ordered ordered⟩

/-- Two listings of three instructions have one order.  With two faults of each kind, the first
listed counts: the second 7 is refused before the zero and the second 3. -/
theorem ordered_or_refused_faults :
    let i (order : Nat) : Instruction := ⟨.known .break, [], order⟩
    let p : Program := ⟨[i 30, i 10, i 20]⟩
    let r : Program := ⟨[i 20, i 30, i 10]⟩
    let q : Program := ⟨[i 10, i 20, i 30]⟩
    let faulty : Program := ⟨[i 3, i 7, i 7, i 0, i 3, i 0]⟩
    p.ordered = .ok q ∧ Increasing q.instructions ∧ r.ordered = .ok q ∧ q.ordered = .ok q ∧
      faulty.ordered = .error (.duplicate 7) := by
  intro i p r q faulty
  have ordered : p.ordered = .ok q := by decide
  obtain ⟨-, -, orders⟩ := ordered_or_refused p
  obtain ⟨-, increasing, listed, again⟩ := orders q ordered
  obtain ⟨-, refusal, -⟩ := ordered_or_refused faulty
  refine ⟨ordered, increasing, listed r (by decide), again, (refusal _).2 ?_⟩
  exact ⟨[i 3, i 7], i 7, [i 0, i 3, i 0], rfl, by decide, by decide,
    .duplicate (by decide) (by decide)⟩

end FrameCode.Program
