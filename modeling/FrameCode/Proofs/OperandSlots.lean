import FrameCode.Proofs.Results
import FrameCode.Xml.Program
import Mathlib.Data.List.Forall2
import Mathlib.Data.List.Perm.Subperm

/-!
# Operand elements and positions

An instruction element names the positions of its operands: `arg1` holds the first one, `arg2` the
second one, `arg3` the third one.  They can come in any order, with anything between them, and of
elements with the same name the first one counts.

Reading an instruction collects the operands by these names and then forgets them.
`readInstruction_slots` says what is read: the operands of the positions that have an element, in
the order of the positions.  Each of them is at its own position just if the positions that have
an element are the first ones.
-/

namespace FrameCode.Xml

/-! ## Parts with a name -/

namespace Node

/-- The first element with the given name among the parts of an element. -/
def FirstNamed (n : Node) (name : String) (c : Node) : Prop :=
  ∃ before after, n.children = before ++ c :: after ∧ c.name? = some name ∧
    ∀ b ∈ before, b.name? ≠ some name

theorem head?_childrenNamed_eq_some_iff {n c : Node} {name : String} :
    (n.childrenNamed name).head? = some c ↔ n.FirstNamed name c := by
  rw [childrenNamed, List.head?_filter, List.find?_eq_some_iff_append]
  constructor
  · rintro ⟨named, before, after, split, others⟩
    exact ⟨before, after, split, by simpa using named, fun b mem => by simpa using others b mem⟩
  · rintro ⟨before, after, split, named, others⟩
    exact ⟨by simpa using named, before, after, split, fun b mem => by simpa using others b mem⟩

end Node

/-! ## Operand elements -/

/-- The name of the elements with the operand for a position; positions are counted from 1. -/
def operandName (position : Nat) : String := "arg" ++ position.repr

/-- The positions that an instruction element can have operands for. -/
def operandPositions : List Nat := [1, 2, 3]

theorem operandNames_eq : operandNames = operandPositions.map operandName := by decide

namespace Node

/-- The element holds the operand: in its attribute `type` the tag, and in its text what goes
with the tag. -/
def Holds (n : Node) (x : Operand) : Prop :=
  ∃ tag, n.attribute? "type" = some tag ∧ Operand.read tag n.allText = .ok x

/-- The operand is held by the first of the operand elements for the position. -/
def HoldsAt (n : Node) (position : Nat) (x : Operand) : Prop :=
  ∃ c, n.FirstNamed (operandName position) c ∧ c.Holds x

/-- The first operand element for the position. -/
def operandFor? (n : Node) (position : Nat) : Option Node :=
  (n.childrenNamed (operandName position)).head?

/-- The element has an operand element for the position. -/
def hasOperand (n : Node) (position : Nat) : Bool :=
  n.children.any fun c => c.name? == some (operandName position)

/-- The positions that the element has an operand element for. -/
def positions (n : Node) : List Nat := operandPositions.filter n.hasOperand

/-- The positions that the element has an operand element for are the first ones. -/
def Gapless (n : Node) : Prop := n.positions = List.range' 1 n.positions.length

instance (n : Node) : Decidable n.Gapless := inferInstanceAs (Decidable (_ = _))

/-- Each operand is the one that the element holds for the operand's own position. -/
def KeepsSlots (n : Node) (xs : List Operand) : Prop :=
  ∀ (k : Nat) (x : Operand), xs[k]? = some x → n.HoldsAt (k + 1) x

variable {n : Node} {xs : List Operand}

theorem isSome_operandFor? (n : Node) (position : Nat) :
    (n.operandFor? position).isSome = n.hasOperand position := by
  rw [operandFor?, childrenNamed, List.head?_filter, List.isSome_find?, hasOperand]

theorem holdsAt_iff {position : Nat} {x : Operand} :
    n.HoldsAt position x ↔ ∃ c, n.operandFor? position = some c ∧ c.Holds x := by
  simp only [HoldsAt, operandFor?, head?_childrenNamed_eq_some_iff]

/-- An operand is held for a position only if there is an operand element for it. -/
theorem HoldsAt.hasOperand {position : Nat} {x : Operand} (holds : n.HoldsAt position x) :
    n.hasOperand position = true := by
  obtain ⟨c, found, -⟩ := holdsAt_iff.1 holds
  rw [← isSome_operandFor?, found]
  rfl

theorem pairwise_positions (n : Node) : n.positions.Pairwise (· < ·) :=
  List.Pairwise.filter _ (by decide)

/-- Positions are left out just if an operand comes before its own position. -/
theorem keepsSlots_iff_gapless (holds : List.Forall₂ n.HoldsAt n.positions xs) :
    n.KeepsSlots xs ↔ n.Gapless := by
  have size : n.positions.length = xs.length := holds.length_eq
  constructor
  · intro keeps
    have filled : List.range' 1 n.positions.length ⊆ n.positions := by
      intro position mem
      obtain ⟨low, high⟩ := List.mem_range'_1.1 mem
      obtain ⟨k, rfl⟩ := Nat.exists_eq_add_of_le' low
      have inside : k < xs.length := by omega
      have few : n.positions.length ≤ 3 := List.length_filter_le _ _
      have listed : k + 1 ∈ operandPositions := by
        simp only [operandPositions, List.mem_cons, List.not_mem_nil, or_false]
        omega
      exact List.mem_filter.2
        ⟨listed, (keeps k xs[k] (List.getElem?_eq_getElem inside)).hasOperand⟩
    have perm := (List.Nodup.subperm List.nodup_range' filled).perm_of_length_le (by simp)
    exact (perm.eq_of_pairwise (fun a b _ _ le ge => by omega) List.pairwise_lt_range'
      n.pairwise_positions).symm
  · intro gapless k x found
    obtain ⟨inside, rfl⟩ := List.getElem?_eq_some_iff.1 found
    have here := holds.get (size ▸ inside) inside
    have position : n.positions.get ⟨k, size ▸ inside⟩ = k + 1 := by
      simp only [List.get_eq_getElem]
      rw [List.getElem_of_eq gapless]
      simp [Nat.add_comm]
    rw [position] at here
    exact here

end Node

/-! ## Reading operands -/

variable {n : Node} {xs : List Operand}

/-- An element without a tag holds no operand. -/
theorem holds_iff {x : Operand} :
    n.Holds x ↔ Operand.read ((n.attribute? "type").getD "") n.allText = .ok x := by
  rw [Node.Holds]
  cases n.attribute? "type" with
  | none =>
    refine iff_of_false (by simp) fun read => ?_
    cases read
  | some tag => simp

theorem readOperands_eq_ok_iff {ns : List Node} :
    readOperands ns = .ok xs ↔ List.Forall₂ Node.Holds ns xs := by
  induction ns generalizing xs with
  | nil =>
    rw [readOperands, List.forall₂_nil_left_iff, Except.ok.injEq, eq_comm]
  | cons n ns ih =>
    rw [readOperands, List.forall₂_cons_left_iff]
    simp only [holds_iff, ← ih]
    cases Operand.read ((n.attribute? "type").getD "") n.allText with
    | error e => simp
    | ok x => cases readOperands ns <;> simp [eq_comm]

/-- The operand elements for some positions hold the operands of those positions that have one. -/
theorem forall₂_holdsAt_iff {positions : List Nat} :
    List.Forall₂ Node.Holds (positions.filterMap n.operandFor?) xs ↔
      List.Forall₂ n.HoldsAt (positions.filter n.hasOperand) xs := by
  induction positions generalizing xs with
  | nil => exact ⟨fun | .nil => .nil, fun | .nil => .nil⟩
  | cons position positions ih =>
    have present := n.isSome_operandFor? position
    cases found : n.operandFor? position with
    | none =>
      rw [found] at present
      rw [List.filterMap_cons_none found, List.filter_cons_of_neg (by simp [← present])]
      exact ih
    | some c =>
      rw [found] at present
      rw [List.filterMap_cons_some found, List.filter_cons_of_pos present.symm]
      simp only [List.forall₂_cons_left_iff, Node.holdsAt_iff, found, Option.some.injEq,
        exists_eq_left', ih]

theorem readOperands_operandNodes_iff :
    readOperands (operandNodes n) = .ok xs ↔ List.Forall₂ n.HoldsAt n.positions xs := by
  rw [readOperands_eq_ok_iff, operandNodes, operandNames_eq, List.filterMap_map]
  exact forall₂_holdsAt_iff

/-! ## Reading instructions -/

/-- **What is read from an instruction element**: its opcode and its order number, and the
operands of the positions that it has an operand element for, in the order of the positions.  They
keep their positions just if no position before them is left out. -/
theorem readInstruction_slots (index : Nat) (n : Node) (i : Instruction) :
    (readInstruction index n = .ok i ↔
      (∃ opcode, n.attribute? "opcode" = some opcode ∧ i.mnemonic = .ofText opcode) ∧
      (∃ order, n.attribute? "order" = some order ∧ i.order = readOrder order) ∧
      List.Forall₂ n.HoldsAt n.positions i.operands) ∧
    (readInstruction index n = .ok i → (n.KeepsSlots i.operands ↔ n.Gapless)) := by
  have read_iff : readInstruction index n = .ok i ↔
      (∃ opcode, n.attribute? "opcode" = some opcode ∧ i.mnemonic = .ofText opcode) ∧
      (∃ order, n.attribute? "order" = some order ∧ i.order = readOrder order) ∧
      List.Forall₂ n.HoldsAt n.positions i.operands := by
    obtain ⟨mnemonic, operands, order⟩ := i
    rw [← readOperands_operandNodes_iff, readInstruction]
    cases n.attribute? "opcode" with
    | none => simp
    | some opcode =>
      cases n.attribute? "order" with
      | none => simp
      | some number =>
        cases readOperands (operandNodes n) with
        | error e => simp
        | ok xs => simp [eq_comm, and_comm]
  exact ⟨read_iff, fun read => Node.keepsSlots_iff_gapless (read_iff.1 read).2.2⟩

/-- Operands in no order, with another element between them, one position twice and one not at
all: the operand for the third position comes second. -/
theorem readInstruction_slots_gap :
    let n : Node := .element "instruction" [("order", " 7 "), ("opcode", "concat")]
      [.text "\n", .element "arg3" [("type", "string")] [.text " c"],
        .element "note" [] [.text "arg2"],
        .element "arg1" [("type", "var")] [.text "GF@", .element "b" [] [.text "r"]],
        .element "arg1" [("type", "int")] [.text "5"]]
    let i : Instruction := ⟨.known .concat, [.place ⟨.global, "r"⟩, .literal (.str "c")], 7⟩
    readInstruction 1 n = .ok i ∧ List.Forall₂ n.HoldsAt [1, 3] i.operands ∧
      ¬n.KeepsSlots i.operands := by
  intro n i
  have read : readInstruction 1 n = .ok i := by decide
  have positions : n.positions = [1, 3] := by decide
  obtain ⟨read_iff, keeps_iff⟩ := readInstruction_slots 1 n i
  obtain ⟨-, -, holds⟩ := read_iff.1 read
  rw [positions] at holds
  exact ⟨read, holds, mt (keeps_iff read).1 (by decide)⟩

/-- The operands of an instruction that is read need not be at their own positions: if only the
second one is there, it comes first. -/
theorem not_forall_keepsSlots :
    ¬∀ (index : Nat) (n : Node) (i : Instruction),
      readInstruction index n = .ok i → n.KeepsSlots i.operands := by
  intro law
  let n : Node := .element "instruction" [("order", "1"), ("opcode", "WRITE")]
    [.element "arg2" [("type", "int")] [.text "5"]]
  have read : readInstruction 1 n = .ok ⟨.known .write, [.literal (.int 5)], 1⟩ := by decide
  have held : n.HoldsAt 1 (.literal (.int 5)) := law 1 n _ read 0 _ rfl
  have absent : n.hasOperand 1 = false := by decide
  rw [held.hasOperand] at absent
  cases absent

end FrameCode.Xml
