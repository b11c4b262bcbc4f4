import FrameCode.Memory
import FrameCode.Proofs.Alike

/-!
# Alike memories

Alike memories have the same frames with the same variables in them, and alike values in
those variables.  Each operation answers alike on alike memories: a question fails with the
same error or has alike cells or values for an answer, and a change has the same result and
leaves alike memories.
-/

namespace FrameCode

/-! ## The relation -/

/-- The cells have one name and alike contents. -/
structure Cell.Alike (c d : Cell) : Prop where
  name : c.name = d.name
  content : Option.Rel Value.Alike c.content d.content

/-- The frames have the same variables, with alike contents. -/
def Frame.Alike (f g : Frame) : Prop := List.Forall₂ Cell.Alike f.cells g.cells

/-- The slots are in one state, and their frames are alike. -/
inductive Temporary.Alike : Temporary → Temporary → Prop
  | absent : Temporary.Alike .absent .absent
  | pending {f g : Frame} : f.Alike g → Temporary.Alike (.pending f) (.pending g)
  | detached {f g : Frame} : f.Alike g → Temporary.Alike (.detached f) (.detached g)

/-- The memories have as many frames, and those are alike. -/
structure Memory.Alike (m k : Memory) : Prop where
  globals : m.globals.Alike k.globals
  locals : List.Forall₂ Frame.Alike m.locals k.locals
  temporary : m.temporary.Alike k.temporary

/-- The operations have the same result, and they leave alike memories. -/
structure Memory.DoneAlike (a b : Except MemoryError Unit × Memory) : Prop where
  result : a.1 = b.1
  memory : a.2.Alike b.2

/-! ## Cells -/

theorem Cell.insert_alike {c d : Cell} {cs ds : List Cell} (first : c.Alike d)
    (alike : List.Forall₂ Cell.Alike cs ds) :
    List.Forall₂ Cell.Alike (Cell.insert c cs) (Cell.insert d ds) := by
  induction alike with
  | nil => exact .cons first .nil
  | cons next rest ih =>
    unfold Cell.insert
    rw [first.name, next.name]
    split
    · exact .cons first (.cons next rest)
    · exact .cons next ih

theorem Cell.replace_alike {name : String} {a b : Option Value}
    (content : Option.Rel Value.Alike a b)
    {cs ds : List Cell} (alike : List.Forall₂ Cell.Alike cs ds) :
    List.Forall₂ Cell.Alike (Cell.replace name a cs) (Cell.replace name b ds) := by
  induction alike with
  | nil => exact .nil
  | @cons c d _ _ next _ ih =>
    refine .cons ?_ ih
    show (if c.name == name then (⟨name, a⟩ : Cell) else c).Alike
      (if d.name == name then ⟨name, b⟩ else d)
    rw [next.name]
    split
    · exact ⟨rfl, content⟩
    · exact next

theorem Cell.find?_alike {cs ds : List Cell} (alike : List.Forall₂ Cell.Alike cs ds)
    (name : String) :
    Option.Rel Cell.Alike (cs.find? (·.name == name)) (ds.find? (·.name == name)) := by
  induction alike with
  | nil => exact .none
  | cons first _ ih =>
    rw [List.find?_cons, List.find?_cons, first.name]
    split
    · exact .some first
    · exact ih

/-! ## Frames -/

namespace Frame.Alike

variable {f g : Frame}

theorem find? (alike : f.Alike g) (name : String) :
    Option.Rel Cell.Alike (f.find? name) (g.find? name) :=
  Cell.find?_alike alike name

theorem contains_eq (alike : f.Alike g) (name : String) : f.contains name = g.contains name := by
  rcases rel_cases (alike.find? name) with ⟨here, there⟩ | ⟨c, d, here, there, -⟩
  · rw [Frame.contains, Frame.contains, here, there]
  · rw [Frame.contains, Frame.contains, here, there]
    rfl

theorem define? (alike : f.Alike g) (name : String) :
    Option.Rel Frame.Alike (f.define? name) (g.define? name) := by
  unfold Frame.define?
  rcases rel_cases (alike.find? name) with ⟨here, there⟩ | ⟨c, d, here, there, -⟩
  · rw [dif_pos here, dif_pos there]
    exact .some (Cell.insert_alike ⟨rfl, .none⟩ alike)
  · rw [dif_neg (by rw [here]; exact Option.some_ne_none c),
      dif_neg (by rw [there]; exact Option.some_ne_none d)]
    exact .none

theorem assign? (alike : f.Alike g) (name : String) {a b : Option Value}
    (content : Option.Rel Value.Alike a b) :
    Option.Rel Frame.Alike (f.assign? name a) (g.assign? name b) := by
  unfold Frame.assign?
  rw [alike.contains_eq]
  split
  · exact .some (Cell.replace_alike content alike)
  · exact .none

end Frame.Alike

/-! ## Memories -/

theorem Temporary.Alike.frame? {s t : Temporary} (alike : s.Alike t) :
    Option.Rel Frame.Alike s.frame? t.frame? := by
  cases alike with
  | absent => exact .none
  | pending alike => exact .some alike
  | detached alike => exact .some alike

theorem Temporary.Alike.replace {s t : Temporary} (alike : s.Alike t) {f g : Frame}
    (frames : f.Alike g) : (s.replace f).Alike (t.replace g) := by
  cases alike with
  | absent => exact .absent
  | pending => exact .pending frames
  | detached => exact .detached frames

namespace Memory.Alike

variable {m k : Memory}

theorem empty : Memory.Alike .empty .empty := ⟨.nil, .nil, .absent⟩

theorem frame? (alike : m.Alike k) (scope : Scope) :
    Option.Rel Frame.Alike (m.frame? scope) (k.frame? scope) := by
  rcases m with ⟨f, fs, s⟩
  rcases k with ⟨g, gs, t⟩
  rcases alike with ⟨globals, locals, temporary⟩
  cases scope with
  | global => exact .some globals
  | topLocal =>
    cases locals with
    | nil => exact .none
    | cons first _ => exact .some first
  | temporary => exact temporary.frame?

theorem replace (alike : m.Alike k) {f g : Frame} (frames : f.Alike g) (scope : Scope) :
    (m.replace f scope).Alike (k.replace g scope) := by
  rcases m with ⟨_, fs, s⟩
  rcases k with ⟨_, gs, t⟩
  rcases alike with ⟨globals, locals, temporary⟩
  cases scope with
  | global => exact ⟨frames, locals, temporary⟩
  | topLocal =>
    cases locals with
    | nil => exact ⟨globals, .nil, temporary⟩
    | cons _ rest => exact ⟨globals, .cons frames rest, temporary⟩
  | temporary => exact ⟨globals, locals, temporary.replace frames⟩

/-! ## Operations on frames -/

theorem createFrame (alike : m.Alike k) : m.createFrame.Alike k.createFrame :=
  ⟨alike.globals, alike.locals, .pending .nil⟩

theorem pushFrame (alike : m.Alike k) : Memory.DoneAlike m.pushFrame k.pushFrame := by
  rcases m with ⟨f, fs, s⟩
  rcases k with ⟨g, gs, t⟩
  rcases alike with ⟨globals, locals, temporary⟩
  cases temporary with
  | absent => exact ⟨rfl, globals, locals, .absent⟩
  | pending frame => exact ⟨rfl, globals, .cons frame locals, .absent⟩
  | detached frame => exact ⟨rfl, globals, locals, .detached frame⟩

theorem popFrame (alike : m.Alike k) : Memory.DoneAlike m.popFrame k.popFrame := by
  rcases m with ⟨f, fs, s⟩
  rcases k with ⟨g, gs, t⟩
  rcases alike with ⟨globals, locals, temporary⟩
  cases locals with
  | nil => exact ⟨rfl, globals, .nil, temporary⟩
  | cons first rest => exact ⟨rfl, globals, rest, .detached first⟩

/-! ## Operations on variables -/

theorem define (alike : m.Alike k) (p : Place) : Memory.DoneAlike (m.define p) (k.define p) := by
  unfold Memory.define
  rcases rel_cases (alike.frame? p.scope) with ⟨here, there⟩ | ⟨f, g, here, there, frames⟩
  · rw [here, there]
    exact ⟨rfl, alike⟩
  rw [here, there]
  dsimp only
  rcases rel_cases (frames.define? p.name) with ⟨here, there⟩ | ⟨f, g, here, there, frames⟩
  · rw [here, there]
    exact ⟨rfl, alike⟩
  · rw [here, there]
    exact ⟨rfl, alike.replace frames p.scope⟩

theorem read (alike : m.Alike k) (p : Place) : Agree Cell.Alike (m.read p) (k.read p) := by
  unfold Memory.read
  rcases rel_cases (alike.frame? p.scope) with ⟨here, there⟩ | ⟨f, g, here, there, frames⟩
  · rw [here, there]
    exact .error _
  rw [here, there]
  dsimp only
  rcases rel_cases (frames.find? p.name) with ⟨here, there⟩ | ⟨c, d, here, there, cells⟩
  · rw [here, there]
    exact .error _
  · rw [here, there]
    exact .ok cells

theorem value (alike : m.Alike k) (p : Place) : Agree Value.Alike (m.value p) (k.value p) := by
  unfold Memory.value
  rcases (alike.read p).cases with ⟨e, here, there⟩ | ⟨c, d, here, there, cells⟩
  · rw [here, there]
    exact .error e
  rw [here, there]
  dsimp only
  rcases rel_cases cells.content with ⟨here, there⟩ | ⟨v, w, here, there, values⟩
  · rw [here, there]
    exact .error _
  · rw [here, there]
    exact .ok values

theorem write (alike : m.Alike k) (p : Place) {v w : Value} (values : v.Alike w) :
    Memory.DoneAlike (m.write p v) (k.write p w) := by
  unfold Memory.write
  rcases rel_cases (alike.frame? p.scope) with ⟨here, there⟩ | ⟨f, g, here, there, frames⟩
  · rw [here, there]
    exact ⟨rfl, alike⟩
  rw [here, there]
  dsimp only
  rcases rel_cases (frames.assign? p.name (.some values)) with
    ⟨here, there⟩ | ⟨f, g, here, there, frames⟩
  · rw [here, there]
    exact ⟨rfl, alike⟩
  · rw [here, there]
    exact ⟨rfl, alike.replace frames p.scope⟩

end Memory.Alike

end FrameCode
