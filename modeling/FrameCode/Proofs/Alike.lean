import FrameCode.Labels
import FrameCode.Proofs.Results
import FrameCode.Proofs.Sameness

/-!
# Alike programs

Two values are alike if they are the same and their strings are well-formed.  The relation extends
part by part to operands, instructions and programs.  It is what `same` says of programs with
well-formed literals, and a program is alike to itself just if its literals are well-formed.

Alike programs have the same labels, and putting them in order gives alike programs.
-/

namespace FrameCode

/-! ## Well-formed literals -/

/-- A string is in a stored form without incomplete codes. -/
def Value.WellFormed : Value → Prop
  | .str stored => Text.Escape.wellFormed stored.toList = true
  | _ => True

/-- A literal is well-formed. -/
def Operand.WellFormed : Operand → Prop
  | .literal v => v.WellFormed
  | _ => True

/-- All literals are well-formed. -/
def Instruction.WellFormed (i : Instruction) : Prop := ∀ x ∈ i.operands, x.WellFormed

/-- All literals are well-formed. -/
def Program.WellFormed (p : Program) : Prop := ∀ i ∈ p.instructions, i.WellFormed

instance : DecidablePred Value.WellFormed
  | .str _ => inferInstanceAs (Decidable (_ = true))
  | .int _ => .isTrue trivial
  | .bool _ => .isTrue trivial
  | .nil => .isTrue trivial

instance : DecidablePred Operand.WellFormed
  | .literal v => inferInstanceAs (Decidable v.WellFormed)
  | .place _ => .isTrue trivial
  | .label _ => .isTrue trivial
  | .type _ => .isTrue trivial

instance : DecidablePred Instruction.WellFormed :=
  fun i => inferInstanceAs (Decidable (∀ x ∈ i.operands, x.WellFormed))

instance : DecidablePred Program.WellFormed :=
  fun p => inferInstanceAs (Decidable (∀ i ∈ p.instructions, i.WellFormed))

/-! ## The relation -/

/-- The values are the same, and well-formed. -/
inductive Value.Alike : Value → Value → Prop
  | int (n : Int64) : Value.Alike (.int n) (.int n)
  | bool (b : Bool) : Value.Alike (.bool b) (.bool b)
  | str {x y : String} : Value.WellFormed (.str x) → Value.WellFormed (.str y) →
      Value.chars x = Value.chars y → Value.Alike (.str x) (.str y)
  | nil : Value.Alike .nil .nil

/-- The operands are the same, and well-formed. -/
inductive Operand.Alike : Operand → Operand → Prop
  | literal {v w : Value} : v.Alike w → Operand.Alike (.literal v) (.literal w)
  | place (p : Place) : Operand.Alike (.place p) (.place p)
  | label (name : String) : Operand.Alike (.label name) (.label name)
  | type (name : String) : Operand.Alike (.type name) (.type name)

/-- The instructions differ at most in the stored forms of their literals, which are
well-formed. -/
structure Instruction.Alike (i j : Instruction) : Prop where
  mnemonic : i.mnemonic = j.mnemonic
  order : i.order = j.order
  operands : List.Forall₂ Operand.Alike i.operands j.operands

/-- The programs differ at most in the stored forms of their literals, which are well-formed. -/
def Program.Alike (p q : Program) : Prop :=
  List.Forall₂ Instruction.Alike p.instructions q.instructions

theorem Value.alike_iff {v w : Value} :
    v.Alike w ↔ v.same w = true ∧ v.WellFormed ∧ w.WellFormed := by
  constructor
  · intro alike
    cases alike with
    | int n => exact ⟨beq_self_eq_true n, trivial, trivial⟩
    | bool b => exact ⟨beq_self_eq_true b, trivial, trivial⟩
    | str hx hy eq => exact ⟨beq_iff_eq.2 eq, hx, hy⟩
    | nil => exact ⟨rfl, trivial, trivial⟩
  · rintro ⟨same, hv, hw⟩
    cases v <;> cases w <;> first | exact .nil | cases (show false = true from same) | skip
    case int.int n k => exact eq_of_beq same ▸ .int n
    case bool.bool b c => exact eq_of_beq same ▸ .bool b
    case str.str x y => exact .str hv hw (eq_of_beq same)

theorem Operand.alike_iff {x y : Operand} :
    x.Alike y ↔ x.same y = true ∧ x.WellFormed ∧ y.WellFormed := by
  constructor
  · intro alike
    cases alike with
    | literal alike => exact Value.alike_iff.1 alike
    | place p => exact ⟨beq_self_eq_true p, trivial, trivial⟩
    | label name => exact ⟨beq_self_eq_true name, trivial, trivial⟩
    | type name => exact ⟨beq_self_eq_true name, trivial, trivial⟩
  · rintro ⟨same, hx, hy⟩
    cases x <;> cases y <;> try cases (show false = true from same)
    case literal.literal v w => exact .literal (Value.alike_iff.2 ⟨same, hx, hy⟩)
    case place.place p q => exact eq_of_beq same ▸ .place p
    case label.label a b => exact eq_of_beq same ▸ .label a
    case type.type a b => exact eq_of_beq same ▸ .type a

/-- Lists that are related pointwise, with well-formedness on both sides. -/
theorem forall₂_iff_and {α : Type} {R S : α → α → Prop} {P : α → Prop}
    (iff : ∀ x y, S x y ↔ R x y ∧ P x ∧ P y) {xs ys : List α} :
    List.Forall₂ S xs ys ↔ List.Forall₂ R xs ys ∧ (∀ x ∈ xs, P x) ∧ ∀ y ∈ ys, P y := by
  constructor
  · intro related
    induction related with
    | nil => exact ⟨.nil, List.forall_mem_nil P, List.forall_mem_nil P⟩
    | cons first _ ih =>
      obtain ⟨related, hx, hy⟩ := (iff _ _).1 first
      exact ⟨.cons related ih.1, List.forall_mem_cons.2 ⟨hx, ih.2.1⟩,
        List.forall_mem_cons.2 ⟨hy, ih.2.2⟩⟩
  · rintro ⟨related, hx, hy⟩
    induction related with
    | nil => exact .nil
    | cons first _ ih =>
      obtain ⟨x, hx⟩ := List.forall_mem_cons.1 hx
      obtain ⟨y, hy⟩ := List.forall_mem_cons.1 hy
      exact .cons ((iff _ _).2 ⟨first, x, y⟩) (ih hx hy)

theorem Operand.forall₂_alike_iff {xs ys : List Operand} :
    List.Forall₂ Operand.Alike xs ys ↔
      List.Forall₂ (fun x y => Operand.same x y = true) xs ys ∧
        (∀ x ∈ xs, x.WellFormed) ∧ ∀ y ∈ ys, y.WellFormed :=
  forall₂_iff_and fun x y => Operand.alike_iff (x := x) (y := y)

theorem Instruction.alike_iff {i j : Instruction} :
    i.Alike j ↔ i.same j = true ∧ i.WellFormed ∧ j.WellFormed := by
  rw [Instruction.same_iff]
  constructor
  · rintro ⟨mnemonic, order, alike⟩
    obtain ⟨same, formed⟩ := Operand.forall₂_alike_iff.1 alike
    exact ⟨⟨mnemonic, order, same⟩, formed⟩
  · rintro ⟨⟨mnemonic, order, same⟩, formed⟩
    exact ⟨mnemonic, order, Operand.forall₂_alike_iff.2 ⟨same, formed⟩⟩

/-- Programs are alike just if they are the same and their literals are well-formed. -/
theorem Program.alike_iff {p q : Program} :
    p.Alike q ↔ p.same q = true ∧ p.WellFormed ∧ q.WellFormed := by
  rw [Program.same_iff]
  exact forall₂_iff_and fun i j => Instruction.alike_iff (i := i) (j := j)

theorem Value.alike_self_iff {v : Value} : v.Alike v ↔ v.WellFormed := by
  constructor
  · exact fun alike => (Value.alike_iff.1 alike).2.1
  · intro formed
    cases v with
    | int n => exact .int n
    | bool b => exact .bool b
    | str stored => exact .str formed formed rfl
    | nil => exact .nil

/-- A program with well-formed literals is alike to itself. -/
theorem Program.alike_self {p : Program} (formed : p.WellFormed) : p.Alike p := by
  refine List.forall₂_same.2 fun i mem => ⟨rfl, rfl, List.forall₂_same.2 fun x inside => ?_⟩
  have literal := formed i mem x inside
  cases x with
  | literal v => exact .literal (Value.alike_self_iff.2 literal)
  | place p => exact .place p
  | label name => exact .label name
  | type name => exact .type name

/-! ## What alike values have in common -/

namespace Value.Alike

variable {v w : Value}

theorem type_eq (alike : v.Alike w) : v.type = w.type := by cases alike <;> rfl

theorem output_eq (alike : v.Alike w) : v.output = w.output := by
  cases alike with
  | str _ _ eq => exact congrArg String.ofList eq
  | _ => rfl

/-- Comparing with alike values gives the same answer. -/
theorem same_eq {v' w' : Value} (alike : v.Alike v') (other : w.Alike w') :
    v.same w = v'.same w' := by
  cases alike with
  | str _ _ eq =>
    cases other with
    | str _ _ eq' =>
      show (Value.chars _ == Value.chars _) = (Value.chars _ == Value.chars _)
      rw [eq, eq']
    | _ => rfl
  | _ => cases other <;> rfl

end Value.Alike

/-! ## Labels of alike programs -/

theorem Instruction.Alike.opcode?_eq {i j : Instruction} (alike : i.Alike j) :
    i.opcode? = j.opcode? :=
  congrArg Mnemonic.opcode? alike.mnemonic

theorem Instruction.Alike.definedLabel?_eq {i j : Instruction} (alike : i.Alike j) :
    i.definedLabel? = j.definedLabel? := by
  unfold Instruction.definedLabel?
  rw [alike.opcode?_eq]
  have operands := alike.operands
  generalize i.operands = xs at operands ⊢
  generalize j.operands = ys at operands ⊢
  rcases j.opcode? with _ | op
  · rfl
  cases op with
  | label =>
    cases operands with
    | nil => rfl
    | cons first _ => cases first <;> rfl
  | _ => rfl

namespace Program

theorem labelsFrom_alike {is js : List Instruction} (alike : List.Forall₂ Instruction.Alike is js)
    (position : Nat) : labelsFrom position is = labelsFrom position js := by
  induction alike generalizing position with
  | nil => rfl
  | cons first _ ih =>
    unfold labelsFrom
    rw [first.definedLabel?_eq, ih]

/-- Alike programs have the same label index. -/
theorem Alike.build_eq {p q : Program} (alike : p.Alike q) : Labels.build p = Labels.build q :=
  congrArg (Labels.registerAll .empty) (labelsFrom_alike alike 0)

/-! ## Putting alike programs in order -/

theorem orderFault?_alike {is js : List Instruction}
    (alike : List.Forall₂ Instruction.Alike is js)
    (seen : List Nat) : orderFault? seen is = orderFault? seen js := by
  induction alike generalizing seen with
  | nil => rfl
  | cons first _ ih =>
    unfold orderFault?
    rw [first.order, ih]

theorem insertOrdered_alike {i j : Instruction} {is js : List Instruction} (first : i.Alike j)
    (alike : List.Forall₂ Instruction.Alike is js) :
    List.Forall₂ Instruction.Alike (insertOrdered i is) (insertOrdered j js) := by
  induction alike with
  | nil => exact .cons first .nil
  | cons next rest ih =>
    unfold insertOrdered
    rw [first.order, next.order]
    split
    · exact .cons first (.cons next rest)
    · exact .cons next ih

theorem sort_alike {is js : List Instruction} (alike : List.Forall₂ Instruction.Alike is js) :
    List.Forall₂ Instruction.Alike (sort is) (sort js) := by
  induction alike with
  | nil => exact .nil
  | cons first _ ih => exact insertOrdered_alike first ih

/-- Alike programs are put in order alike, or refused for the same reason. -/
theorem Alike.ordered {p q : Program} (alike : p.Alike q) :
    Agree Program.Alike p.ordered q.ordered := by
  unfold Program.ordered
  rw [orderFault?_alike alike]
  split
  · exact .error _
  · exact .ok (sort_alike alike)

end Program

end FrameCode
