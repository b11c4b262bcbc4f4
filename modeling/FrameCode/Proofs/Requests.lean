import FrameCode.Memory

/-!
# Requests

The operations that change the memory, as data: an edit of the frame that a scope addresses, or a
move of a frame.  `performed_iff` lists what the requests do that are granted, and a frame is
followed through them by its `Site`: local frames are numbered from the bottom, so a site stands
for the same frame as long as that frame is not moved.
-/

namespace FrameCode

/-! ## Edits of a frame -/

/-- A change of one variable. -/
inductive Frame.Edit where
  | define (name : String)
  | assign (name : String) (value : Value)
  deriving DecidableEq

namespace Frame

/-- The name of the variable that an edit changes. -/
def Edit.name : Edit → String
  | define name => name
  | assign name _ => name

/-- The content of the variable afterwards. -/
def Edit.content : Edit → Option Value
  | define _ => none
  | assign _ v => some v

/-- The frame after an edit; `none` if the variable is there already, or is not there
to be assigned. -/
def edit? (f : Frame) : Edit → Option Frame
  | .define name => f.define? name
  | .assign name v => f.assign? name (some v)

/-- The frame after some edits, the latest first. -/
def edits? (f : Frame) : List Edit → Option Frame
  | [] => some f
  | e :: earlier => (f.edits? earlier).bind (·.edit? e)

variable {f g : Frame} {e : Edit}

theorem find?_of_edit? (edited : f.edit? e = some g) (other : String) :
    g.find? other = if e.name = other then some ⟨e.name, e.content⟩ else f.find? other := by
  cases e with
  | define name => exact find?_of_define? edited other
  | assign name v => exact find?_of_assign? edited other

/-- A variable is defined where there is none of that name, and assigned where there is one. -/
theorem isSome_find?_of_edit? (edited : f.edit? e = some g) :
    (f.find? e.name).isSome = e.content.isSome := by
  cases e with
  | define name =>
    by_cases free : f.find? name = none
    · simp [Edit.name, Edit.content, free]
    · simp [edit?, define?, free] at edited
  | assign name v =>
    by_cases taken : f.contains name
    · exact taken
    · simp [edit?, assign?, taken] at edited

end Frame

namespace Memory

/-! ## Requests -/

/-- A request to change the memory. -/
inductive Request where
  | edit (scope : Scope) (e : Frame.Edit)
  | createFrame
  | pushFrame
  | popFrame
  deriving DecidableEq

/-- Whether a request is granted, and the memory it leaves. -/
def perform (m : Memory) : Request → Except MemoryError Unit × Memory
  | .edit scope (.define name) => m.define ⟨scope, name⟩
  | .edit scope (.assign name v) => m.write ⟨scope, name⟩ v
  | .createFrame => (.ok (), m.createFrame)
  | .pushFrame => m.pushFrame
  | .popFrame => m.popFrame

/-- What a request does that is granted. -/
inductive Performed (m : Memory) : Request → Memory → Prop
  | edit {scope : Scope} {e : Frame.Edit} {f g : Frame} : m.frame? scope = some f →
    f.edit? e = some g → Performed m (.edit scope e) (m.replace g scope)
  | createFrame : Performed m .createFrame { m with temporary := .pending .empty }
  | pushFrame {f : Frame} : m.temporary = .pending f →
    Performed m .pushFrame { m with locals := f :: m.locals, temporary := .absent }
  | popFrame {f : Frame} {rest : List Frame} : m.locals = f :: rest →
    Performed m .popFrame { m with locals := rest, temporary := .detached f }

variable {m k : Memory} {r : Request}

theorem define_eq_ok_iff {p : Place} :
    m.define p = (.ok (), k) ↔
      ∃ f g, m.frame? p.scope = some f ∧ f.define? p.name = some g ∧ k = m.replace g p.scope := by
  unfold define
  cases m.frame? p.scope with
  | none => simp
  | some f =>
    cases edited : f.define? p.name with
    | none => simp [edited]
    | some g => simpa [edited] using eq_comm

theorem write_eq_ok_iff {p : Place} {v : Value} :
    m.write p v = (.ok (), k) ↔
      ∃ f g, m.frame? p.scope = some f ∧ f.assign? p.name (some v) = some g ∧
        k = m.replace g p.scope := by
  unfold write
  cases m.frame? p.scope with
  | none => simp
  | some f =>
    cases edited : f.assign? p.name (some v) with
    | none => simp [edited]
    | some g => simpa [edited] using eq_comm

theorem pushFrame_eq_ok_iff :
    m.pushFrame = (.ok (), k) ↔
      ∃ f, m.temporary = .pending f ∧
        k = { m with locals := f :: m.locals, temporary := .absent } := by
  unfold pushFrame
  cases m.temporary with
  | absent => simp
  | pending f => simpa using eq_comm
  | detached f => simp

theorem popFrame_eq_ok_iff :
    m.popFrame = (.ok (), k) ↔
      ∃ f rest, m.locals = f :: rest ∧
        k = { m with locals := rest, temporary := .detached f } := by
  unfold popFrame
  cases m.locals with
  | nil => simp
  | cons f rest => simpa [and_assoc] using eq_comm

/-- A refused request leaves the memory as it was. -/
theorem perform_of_error {e : MemoryError} (refused : m.perform r = (.error e, k)) : k = m := by
  cases r with
  | edit scope edit =>
    cases edit with
    | define name => exact define_of_error refused
    | assign name v => exact write_of_error refused
  | createFrame => cases refused
  | pushFrame => exact pushFrame_of_error refused
  | popFrame => exact popFrame_of_error refused

theorem performed_iff : m.perform r = (.ok (), k) ↔ m.Performed r k := by
  constructor
  · intro granted
    cases r with
    | edit scope e =>
      cases e with
      | define name =>
        obtain ⟨f, g, found, edited, rfl⟩ := define_eq_ok_iff.1 granted
        exact .edit (e := .define name) found edited
      | assign name v =>
        obtain ⟨f, g, found, edited, rfl⟩ := write_eq_ok_iff.1 granted
        exact .edit (e := .assign name v) found edited
    | createFrame =>
      obtain rfl := congrArg Prod.snd granted
      exact .createFrame
    | pushFrame =>
      obtain ⟨f, pending, rfl⟩ := pushFrame_eq_ok_iff.1 granted
      exact .pushFrame pending
    | popFrame =>
      obtain ⟨f, rest, top, rfl⟩ := popFrame_eq_ok_iff.1 granted
      exact .popFrame top
  · intro performed
    cases performed with
    | @edit scope e f g found edited =>
      cases e with
      | define name => exact define_eq_ok_iff.2 ⟨f, g, found, edited, rfl⟩
      | assign name v => exact write_eq_ok_iff.2 ⟨f, g, found, edited, rfl⟩
    | createFrame => rfl
    | pushFrame pending => exact pushFrame_eq_ok_iff.2 ⟨_, pending, rfl⟩
    | popFrame top => exact popFrame_eq_ok_iff.2 ⟨_, _, top, rfl⟩

/-- A request is refused and leaves the memory as it was, or it is carried out. -/
theorem refused_or_performed (m : Memory) (r : Request) :
    (∃ e, m.perform r = (.error e, m)) ∨ ∃ k, m.perform r = (.ok (), k) ∧ m.Performed r k := by
  rcases answer : m.perform r with ⟨e | ⟨⟩, k⟩
  · obtain rfl := perform_of_error answer
    exact .inl ⟨e, rfl⟩
  · exact .inr ⟨k, rfl, performed_iff.1 answer⟩

end Memory

/-! ## Sites -/

/-- Where a frame is; the local frames are numbered from the bottom. -/
inductive Site where
  | global
  | level (n : Nat)
  | temporary
  deriving DecidableEq

namespace Memory

/-- The frame at a site. -/
def frameAt? (m : Memory) : Site → Option Frame
  | .global => some m.globals
  | .level n => m.locals.reverse[n]?
  | .temporary => m.temporary.frame?

/-- The variable with the given name in the frame at a site. -/
def cellAt? (m : Memory) (s : Site) (name : String) : Option Cell :=
  (m.frameAt? s).bind (·.find? name)

/-- The site of the frame that a scope addresses. -/
def site (m : Memory) : Scope → Site
  | .global => .global
  | .topLocal => .level (m.depth - 1)
  | .temporary => .temporary

variable {m : Memory}

theorem frameAt?_level_cons {f : Frame} {rest : List Frame}
    (top : m.locals = f :: rest) (n : Nat) :
    m.frameAt? (.level n) = if n = rest.length then some f else rest.reverse[n]? := by
  show m.locals.reverse[n]? = _
  rw [top, List.reverse_cons]
  split
  · next here => simp [here]
  · next other =>
    by_cases below : n < rest.length
    · rw [List.getElem?_append_left (by simpa using below)]
    · rw [List.getElem?_eq_none (by simp; omega), List.getElem?_eq_none (by simp; omega)]

theorem frameAt?_site (m : Memory) (scope : Scope) :
    m.frameAt? (m.site scope) = m.frame? scope := by
  cases scope with
  | global | temporary => rfl
  | topLocal =>
    show m.frameAt? (.level (m.depth - 1)) = m.locals.head?
    cases top : m.locals with
    | nil => simp [frameAt?, top]
    | cons f rest =>
      rw [frameAt?_level_cons top, depth, top]
      simp

/-- Replacing the frame that a scope addresses changes the frame at one site. -/
theorem frameAt?_replace {scope : Scope} {f : Frame} (found : m.frame? scope = some f) (g : Frame)
    (s : Site) :
    (m.replace g scope).frameAt? s = if s = m.site scope then some g else m.frameAt? s := by
  cases scope with
  | global => cases s <;> simp [replace, site, frameAt?]
  | temporary =>
    have held : (m.temporary.replace g).frame? = some g := by
      revert found
      show m.temporary.frame? = some f → _
      cases m.temporary <;> simp [Temporary.frame?, Temporary.replace]
    cases s <;> simp [replace, site, frameAt?, held]
  | topLocal =>
    obtain ⟨rest, top⟩ : ∃ rest, m.locals = f :: rest := List.head?_eq_some_iff.1 found
    have replaced : (m.replace g .topLocal).locals = g :: rest := by
      show m.locals.modifyHead _ = _
      rw [top]
      rfl
    have depth : m.depth - 1 = rest.length := by simp [Memory.depth, top]
    cases s with
    | global | temporary => simp [replace, site, frameAt?]
    | level n =>
      rw [frameAt?_level_cons replaced, frameAt?_level_cons top]
      simp only [site, Site.level.injEq, depth]
      split <;> rfl

theorem depth_replace (m : Memory) (g : Frame) (scope : Scope) :
    (m.replace g scope).depth = m.depth := by
  cases scope <;> simp [replace, depth]

theorem frame?_replace {scope : Scope} {f : Frame} (found : m.frame? scope = some f)
    (g : Frame) : (m.replace g scope).frame? scope = some g := by
  have here : (m.replace g scope).site scope = m.site scope := by
    cases scope with
    | global | temporary => rfl
    | topLocal =>
      exact congrArg (fun depth => Site.level (depth - 1)) (depth_replace m g .topLocal)
  rw [← frameAt?_site, here, frameAt?_replace found, if_pos rfl]

/-- A variable that is there can be assigned, and has the value then. -/
theorem exists_write {p : Place} {c : Cell} (defined : m.read p = .ok c)
    (v : Value) : ∃ k, m.write p v = (.ok (), k) ∧ k.read p = .ok ⟨p.name, some v⟩ := by
  unfold read at defined
  split at defined
  · cases defined
  · next f framed =>
    split at defined
    · cases defined
    · next d found =>
      have taken : f.contains p.name = true := by
        rw [Frame.contains, found]
        rfl
      obtain ⟨g, assigned⟩ : ∃ g, f.assign? p.name (some v) = some g := ⟨_, if_pos taken⟩
      have cell := Frame.find?_of_assign? assigned p.name
      rw [if_pos rfl] at cell
      refine ⟨m.replace g p.scope, write_eq_ok_iff.2 ⟨f, g, framed, assigned, rfl⟩, ?_⟩
      rw [read, frame?_replace framed]
      simp only [cell]

/-- A variable that is not there is not assigned, for the reason that it is not read. -/
theorem write_of_missing {p : Place} {e : MemoryError}
    (missing : m.read p = .error e) (v : Value) :
    m.write p v = (.error e, m) := by
  unfold read at missing
  unfold write
  split at missing
  · cases missing
    rfl
  · next f framed =>
    split at missing
    · next free =>
      cases missing
      simp [Frame.assign?, Frame.contains, free]
    · cases missing

end Memory

end FrameCode
