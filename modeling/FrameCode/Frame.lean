import FrameCode.Value

/-!
# Frames

A frame holds named variables, each with a value or still without one.  Its cells are listed by
increasing name, so a frame is a finite map in one canonical form: two frames that answer `find?`
alike are equal lists, whatever the order of the definitions that made them.

`define?` adds a variable and refuses a name that is taken; `assign?` changes the content of a
variable and refuses a name that is not there.  `find?_of_define?` and `find?_of_assign?` say what
is found afterwards: the variable as it is now, and every other variable as it was.
-/

namespace FrameCode

/-- A variable with its content; `none` before the first assignment. -/
structure Cell where
  name : String
  content : Option Value
  deriving DecidableEq, Repr

namespace Cell

/-- The type of the content. -/
def type? (c : Cell) : Option ValueType := c.content.map Value.type

/-- The cell as a dump shows it. -/
def print (c : Cell) : String :=
  match c.content with
  | some v => c.name ++ " = " ++ v.print
  | none => c.name ++ " = <uninitialized>"

end Cell

/-! ## Ordered insertion -/

/-- The names of the cells increase. -/
abbrev Cell.Increasing (cells : List Cell) : Prop := cells.Pairwise (·.name < ·.name)

/-- Puts a cell before the first one with a greater name. -/
def Cell.insert (c : Cell) : List Cell → List Cell
  | [] => [c]
  | d :: rest => if c.name < d.name then c :: d :: rest else d :: Cell.insert c rest

theorem Cell.mem_insert {c x : Cell} {cells : List Cell} :
    x ∈ Cell.insert c cells ↔ x = c ∨ x ∈ cells := by
  induction cells with
  | nil => simp [Cell.insert]
  | cons d rest ih =>
    unfold Cell.insert
    split
    · simp
    · simp only [List.mem_cons, ih]
      exact ⟨fun h => h.elim (fun h => .inr (.inl h))
        (fun h => h.elim .inl (fun h => .inr (.inr h))),
        fun h => h.elim (fun h => .inr (.inl h)) (fun h => h.elim .inl (fun h => .inr (.inr h)))⟩

theorem Cell.increasing_insert {c : Cell} {cells : List Cell} (sorted : Cell.Increasing cells)
    (fresh : ∀ d ∈ cells, d.name ≠ c.name) : Cell.Increasing (Cell.insert c cells) := by
  induction cells with
  | nil => simp [Cell.insert]
  | cons d rest ih =>
    obtain ⟨below, sortedRest⟩ := List.pairwise_cons.1 sorted
    unfold Cell.insert
    split
    · next less =>
      refine List.pairwise_cons.2 ⟨fun x mem => ?_, sorted⟩
      rcases List.mem_cons.1 mem with rfl | mem
      · exact less
      · exact String.lt_trans less (below x mem)
    · next notLess =>
      refine List.pairwise_cons.2
        ⟨fun x mem => ?_, ih sortedRest fun y mem => fresh y (List.mem_cons_of_mem _ mem)⟩
      rcases Cell.mem_insert.1 mem with rfl | mem
      · have le : d.name ≤ x.name := String.not_lt.1 notLess
        have ne := fresh d List.mem_cons_self
        exact Decidable.byContradiction fun not =>
          ne (String.le_antisymm le (String.not_lt.1 not))
      · exact below x mem

theorem Cell.find?_insert {c : Cell} {cells : List Cell} (fresh : ∀ d ∈ cells, d.name ≠ c.name)
    (name : String) :
    (Cell.insert c cells).find? (·.name == name) =
      if c.name = name then some c else cells.find? (·.name == name) := by
  induction cells with
  | nil => by_cases same : c.name = name <;> simp [Cell.insert, same]
  | cons d rest ih =>
    have ih := ih fun x mem => fresh x (List.mem_cons_of_mem _ mem)
    have apart := fresh d List.mem_cons_self
    unfold Cell.insert
    split
    · by_cases same : c.name = name <;> simp [same]
    · rw [List.find?_cons, ih, List.find?_cons]
      by_cases same : d.name = name
      · have other : c.name ≠ name := fun eq => apart (same.trans eq.symm)
        simp [same, other]
      · rw [beq_eq_false_iff_ne.2 same]

/-! ## Replacement -/

/-- Gives new content to the cells with the given name. -/
def Cell.replace (name : String) (content : Option Value) (cells : List Cell) : List Cell :=
  cells.map fun c => if c.name == name then ⟨name, content⟩ else c

theorem Cell.increasing_replace {name : String} {content : Option Value} {cells : List Cell}
    (sorted : Cell.Increasing cells) : Cell.Increasing (Cell.replace name content cells) := by
  have names : ∀ c : Cell,
      (if c.name == name then (⟨name, content⟩ : Cell) else c).name = c.name := by
    intro c
    split
    · next eq => exact (beq_iff_eq.1 eq).symm
    · rfl
  refine List.pairwise_map.2 (sorted.imp fun less => ?_)
  rw [names, names]
  exact less

theorem Cell.find?_replace (name : String) (content : Option Value) (cells : List Cell)
    (other : String) :
    (Cell.replace name content cells).find? (·.name == other) =
      if name = other then (cells.find? (·.name == name)).map fun _ => ⟨name, content⟩
      else cells.find? (·.name == other) := by
  unfold Cell.replace
  induction cells with
  | nil => simp
  | cons c rest ih =>
    rw [List.map_cons, List.find?_cons, ih]
    by_cases same : name = other <;> by_cases here : c.name = name
    · simp [same, here.trans same]
    · have apart := beq_eq_false_iff_ne.2 fun eq => here (eq.trans same.symm)
      simp [same, apart]
    · simp [same, here, beq_eq_false_iff_ne.2 same]
    · simp [same, here, List.find?_cons]

/-! ## Frames -/

/-- Variables by name. -/
structure Frame where
  cells : List Cell
  sorted : Cell.Increasing cells
  deriving DecidableEq

namespace Frame

/-- The frame without variables. -/
def empty : Frame := ⟨[], .nil⟩

/-- The variable with the given name. -/
def find? (f : Frame) (name : String) : Option Cell := f.cells.find? (·.name == name)

/-- The name is taken. -/
def contains (f : Frame) (name : String) : Bool := (f.find? name).isSome

/-- The frame with one more variable, which has no content; `none` if the name is taken. -/
def define? (f : Frame) (name : String) : Option Frame :=
  if free : f.find? name = none then
    some ⟨Cell.insert ⟨name, none⟩ f.cells, Cell.increasing_insert f.sorted fun d mem eq => by
      have := List.find?_eq_none.1 free d mem
      simp [eq] at this⟩
  else none

/-- The frame with new content for a variable; `none` if there is no such variable. -/
def assign? (f : Frame) (name : String) (content : Option Value) : Option Frame :=
  if f.contains name then
    some ⟨Cell.replace name content f.cells, Cell.increasing_replace f.sorted⟩
  else none

/-- The number of variables. -/
def size (f : Frame) : Nat := f.cells.length

/-! ## What is found after a change -/

theorem find?_empty (name : String) : empty.find? name = none := rfl

theorem find?_of_define? {f g : Frame} {name : String} (defined : f.define? name = some g)
    (other : String) :
    g.find? other = if name = other then some ⟨name, none⟩ else f.find? other := by
  unfold define? at defined
  split at defined
  · next free =>
    obtain rfl := Option.some.inj defined
    refine Cell.find?_insert (c := ⟨name, none⟩) (fun d mem eq => ?_) other
    have := List.find?_eq_none.1 free d mem
    simp [eq] at this
  · exact absurd defined (by simp)

theorem find?_of_assign? {f g : Frame} {name : String} {content : Option Value}
    (assigned : f.assign? name content = some g) (other : String) :
    g.find? other = if name = other then some ⟨name, content⟩ else f.find? other := by
  unfold assign? at assigned
  split at assigned
  · next taken =>
    obtain rfl := Option.some.inj assigned
    refine (Cell.find?_replace name content f.cells other).trans ?_
    split
    · obtain ⟨c, found⟩ := Option.isSome_iff_exists.1 taken
      rw [show f.cells.find? (·.name == name) = some c from found]
      rfl
    · rfl
  · exact absurd assigned (by simp)

/-! ## Dump -/

/-- The frame as a dump shows it. -/
def print (f : Frame) : String :=
  "\x7b" ++ ", ".intercalate (f.cells.map Cell.print) ++ "\x7d"

end Frame

end FrameCode
