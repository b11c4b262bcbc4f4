import FrameCode.Program

/-!
# Label index

The index of a program maps each label to one position.  A later definition of a label replaces an
earlier one, and building the index lists these redefinitions in program order.
`resolve?_register` says that a definition changes the position of its own label only.

`Program.undefinedLabels` lists the uses of labels that the index does not have.
-/

namespace FrameCode

/-- Positions of labels; no label occurs twice. -/
structure Labels where
  entries : List (String × Nat)
  deriving DecidableEq, Repr

namespace Labels

/-- A definition that replaced an earlier one. -/
structure Redefinition where
  label : String
  previous : Nat
  position : Nat
  deriving DecidableEq, Repr

/-- The index without labels. -/
def empty : Labels := ⟨[]⟩

/-- The position of a label. -/
def resolve? (index : Labels) (name : String) : Option Nat := index.entries.lookup name

/-- The label is in the index. -/
def contains (index : Labels) (name : String) : Bool := (index.resolve? name).isSome

/-- The number of labels. -/
def size (index : Labels) : Nat := index.entries.length

/-- The index with a label at a position, in place of an earlier position of that label. -/
def register (index : Labels) (name : String) (position : Nat) : Labels :=
  ⟨(name, position) :: index.entries.filter (·.1 != name)⟩

theorem resolve?_register (index : Labels) (name : String) (position : Nat) (other : String) :
    (index.register name position).resolve? other =
      if other = name then some position else index.resolve? other := by
  unfold register resolve?
  rw [List.lookup_cons]
  by_cases same : other = name
  · simp [same]
  · rw [beq_eq_false_iff_ne.2 same, if_neg same]
    induction index.entries with
    | nil => rfl
    | cons e rest ih =>
      obtain ⟨key, p⟩ := e
      rw [List.lookup_cons, ← ih]
      by_cases kept : key = name
      · simp [kept, beq_eq_false_iff_ne.2 same]
      · simp [kept, List.lookup_cons]

/-- Registers definitions one after the other. -/
def registerAll (index : Labels) : List (String × Nat) → Labels × List Redefinition
  | [] => (index, [])
  | (name, position) :: rest =>
    let (final, more) := registerAll (index.register name position) rest
    match index.resolve? name with
    | some previous => (final, ⟨name, previous, position⟩ :: more)
    | none => (final, more)

/-- The index of the labels of a program, and the redefinitions among them. -/
def build (p : Program) : Labels × List Redefinition := empty.registerAll p.labels

end Labels

/-! ## Undefined labels -/

/-- The labels among the operands of an instruction that is not a label definition. -/
def Instruction.labelsUsed (i : Instruction) : List String :=
  if i.opcode? = some .label then []
  else
    i.operands.filterMap fun
      | .label name => some name
      | _ => none

/-- The uses of labels that no instruction defines, with the order numbers of the instructions. -/
def Program.undefinedLabels (p : Program) : List (Nat × String) :=
  let index := (Labels.build p).1
  p.instructions.flatMap fun i =>
    (i.labelsUsed.filter fun name => !index.contains name).map fun name => (i.order, name)

end FrameCode
