import FrameCode.Frame
import Mathlib.Data.List.Sort

/-!
# Updates of a frame

An update defines a variable or changes the content of one, and the frame stays as it is if the
update is refused.  What a frame holds follows from the updates so far.  `find?_afterAll` says
that what is found under a name depends on the updates of this name alone, and
`find?_afterAll_eq_some_iff` that it has the content of the latest assignment since the
variable was defined.

A frame is determined by what is found in it, `eq_of_find?_eq`.  So updates of different variables
can be made in any order, `afterAll_reordered`.
-/

namespace FrameCode.Frame

/-! ## Updates -/

/-- A change of one variable; an assignment may also take its content away. -/
inductive Update where
  | define (name : String)
  | assign (name : String) (content : Option Value)
  deriving DecidableEq

namespace Update

/-- The name of the variable that an update is for. -/
def name : Update → String
  | define name => name
  | assign name _ => name

/-- What an update makes of the variable of its name. -/
def apply : Update → Option Cell → Option Cell
  | define name, none => some ⟨name, none⟩
  | define _, some c => some c
  | assign _ _, none => none
  | assign name content, some _ => some ⟨name, content⟩

/-- The content that an update assigns to the variable of a name. -/
def contentFor? (name : String) : Update → Option (Option Value)
  | define _ => none
  | assign other content => if other = name then some content else none

end Update

/-- The frame after an update; `none` if the variable is there already, or is not there
to be assigned. -/
def update? (f : Frame) : Update → Option Frame
  | .define name => f.define? name
  | .assign name content => f.assign? name content

/-- The frame after an update; a refused one leaves it as it was. -/
def updated (f : Frame) (u : Update) : Frame := (f.update? u).getD f

/-- The updates of a new frame, the latest first. -/
abbrev History := List Update

/-- The frame after a history. -/
def afterAll : History → Frame
  | [] => .empty
  | u :: earlier => (afterAll earlier).updated u

/-- The content that the latest assignment of a history gives to the variable of a name. -/
def latestContent (name : String) (h : History) : Option Value :=
  (h.findSome? (Update.contentFor? name)).join

variable {f g : Frame} {c : Cell} {h early : History} {name : String}

theorem isSome_define?_iff : (f.define? name).isSome = true ↔ f.find? name = none := by
  unfold define?
  split <;> simp_all

theorem isSome_assign?_iff {content : Option Value} :
    (f.assign? name content).isSome = true ↔ (f.find? name).isSome = true := by
  unfold assign? contains
  split <;> simp_all

/-! ## What is found after a history -/

theorem find?_of_update? {u : Update} (done : f.update? u = some g) (name : String) :
    g.find? name = if u.name = name then u.apply (f.find? name) else f.find? name := by
  cases u with
  | define other =>
    have free : f.find? other = none := isSome_define?_iff.1 (Option.isSome_of_eq_some done)
    rw [find?_of_define? done]
    by_cases same : other = name
    · subst same
      simp [Update.name, Update.apply, free]
    · simp [Update.name, same]
  | assign other content =>
    obtain ⟨c, found⟩ : ∃ c, f.find? other = some c :=
      Option.isSome_iff_exists.1 (isSome_assign?_iff.1 (Option.isSome_of_eq_some done))
    rw [find?_of_assign? done]
    by_cases same : other = name
    · subst same
      simp [Update.name, Update.apply, found]
    · simp [Update.name, same]

/-- A refused update would make no difference to the variable. -/
theorem apply_of_refused {u : Update} (refused : f.update? u = none) :
    u.apply (f.find? u.name) = f.find? u.name := by
  have no : (f.update? u).isSome = false :=
    Option.isSome_eq_false_iff.2 (Option.isNone_iff_eq_none.2 refused)
  cases u with
  | define name =>
    have taken : f.find? name ≠ none := fun free => by
      rw [update?, isSome_define?_iff.2 free] at no
      cases no
    obtain ⟨c, found⟩ := Option.ne_none_iff_exists'.1 taken
    simp [Update.name, Update.apply, found]
  | assign name content =>
    have missing : f.find? name = none := by
      rw [update?, ← Bool.not_eq_true, isSome_assign?_iff, Option.not_isSome_iff_eq_none] at no
      exact no
    simp [Update.name, Update.apply, missing]

theorem find?_updated (f : Frame) (u : Update) (name : String) :
    (f.updated u).find? name =
      if u.name = name then u.apply (f.find? name) else f.find? name := by
  rw [updated]
  cases answer : f.update? u with
  | some g => exact find?_of_update? answer name
  | none =>
    split
    · next same =>
      subst same
      exact (apply_of_refused answer).symm
    · rfl

/-- What is found under a name is what the updates of this name have made. -/
theorem find?_afterAll (h : History) (name : String) :
    (afterAll h).find? name = (h.filter (·.name == name)).foldr Update.apply none := by
  induction h with
  | nil => rfl
  | cons u h ih =>
    rw [afterAll, find?_updated, ih, List.filter_cons]
    by_cases same : u.name = name
    · rw [if_pos same, if_pos (beq_iff_eq.2 same), List.foldr_cons]
    · rw [if_neg same, if_neg (mt beq_iff_eq.1 same)]

/-- A variable is there if it was defined. -/
theorem find?_afterAll_eq_none_iff : (afterAll h).find? name = none ↔ .define name ∉ h := by
  induction h with
  | nil => simp [afterAll, find?_empty]
  | cons u h ih =>
    rw [afterAll, find?_updated, List.mem_cons, not_or, ← ih]
    cases u with
    | define other =>
      by_cases same : other = name
      · cases found : (afterAll h).find? name <;> simp [Update.name, Update.apply, same]
      · simp [Update.name, same, Ne.symm same]
    | assign other content =>
      by_cases same : other = name
      · cases found : (afterAll h).find? name <;> simp [Update.name, Update.apply, same]
      · simp [Update.name, same]

/-- Since its definition, a variable has the content that was assigned last. -/
theorem find?_since_define (fresh : .define name ∉ early) (late : History) :
    (afterAll (late ++ .define name :: early)).find? name =
      some ⟨name, latestContent name late⟩ := by
  induction late with
  | nil =>
    rw [List.nil_append, afterAll, find?_updated, find?_afterAll_eq_none_iff.2 fresh]
    exact if_pos rfl
  | cons u late ih =>
    rw [List.cons_append, afterAll, find?_updated, ih]
    cases u with
    | define other => exact ite_self _
    | assign other content =>
      by_cases same : other = name
      · simp [Update.name, Update.apply, latestContent, Update.contentFor?, same]
      · simp [Update.name, latestContent, Update.contentFor?, same]

/-- A variable is found if it was defined, with the content of the latest assignment since
then. -/
theorem find?_afterAll_eq_some_iff :
    (afterAll h).find? name = some c ↔
      ∃ late early, h = late ++ .define name :: early ∧ .define name ∉ early ∧
        c = ⟨name, latestContent name late⟩ := by
  constructor
  · intro found
    have defined : .define name ∈ h.reverse := by
      rw [List.mem_reverse]
      by_contra fresh
      rw [find?_afterAll_eq_none_iff.2 fresh] at found
      cases found
    -- The first definition is the last one that is listed.
    obtain ⟨before, after, split, fresh⟩ := List.eq_append_cons_of_mem defined
    obtain rfl : h = after.reverse ++ .define name :: before.reverse := by
      rw [← List.reverse_reverse h, split]
      simp
    rw [find?_since_define (mt List.mem_reverse.1 fresh)] at found
    exact ⟨_, _, rfl, mt List.mem_reverse.1 fresh, (Option.some.inj found).symm⟩
  · rintro ⟨late, early, rfl, fresh, rfl⟩
    exact find?_since_define fresh late

/-! ## Frames by what is found in them -/

theorem nodup_names (f : Frame) : (f.cells.map Cell.name).Nodup :=
  List.pairwise_map.2 (f.sorted.imp fun less => String.ne_of_lt less)

/-- A variable is found under its own name. -/
theorem name_of_find? (found : f.find? name = some c) : c.name = name := by
  have same := List.find?_some (show f.cells.find? (·.name == name) = some c from found)
  exact beq_iff_eq.1 same

/-- The cells of a frame are the variables that are found in it. -/
theorem mem_cells_iff : c ∈ f.cells ↔ f.find? c.name = some c := by
  constructor
  · intro mem
    obtain ⟨d, found⟩ : ∃ d, f.find? c.name = some d :=
      Option.isSome_iff_exists.1 (List.find?_isSome.2 ⟨c, mem, beq_self_eq_true _⟩)
    have listed : d ∈ f.cells := List.mem_of_find?_eq_some found
    rw [found, List.inj_on_of_nodup_map f.nodup_names listed mem (name_of_find? found)]
  · exact List.mem_of_find?_eq_some

/-- Two frames in which the same is found are one frame. -/
theorem eq_of_find?_eq (alike : ∀ name, f.find? name = g.find? name) : f = g := by
  have cells : f.cells = g.cells :=
    List.Pairwise.eq_of_mem_iff f.sorted g.sorted fun c => by
      rw [mem_cells_iff, mem_cells_iff, alike]
  cases f
  cases g
  cases cells
  rfl

/-- The order of updates of different variables does not matter. -/
theorem afterAll_reordered {k : History}
    (alike : ∀ name, k.filter (·.name == name) = h.filter (·.name == name)) :
    afterAll k = afterAll h :=
  eq_of_find?_eq fun name => by rw [find?_afterAll, find?_afterAll, alike]

end FrameCode.Frame
