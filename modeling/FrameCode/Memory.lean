import FrameCode.Frame
import FrameCode.Operand

/-!
# Memory

The memory holds the global frame, a stack of local frames and the slot of the temporary frame.
A frame that was created can be pushed once.  A frame that came back from the stack is detached:
its variables can be used, but it is not pushed again.

An operation that changes the memory gives its result with the memory it leaves, which is the
memory as it was when the operation is refused.
-/

namespace FrameCode

/-- The slot of the temporary frame. -/
inductive Temporary where
  | absent
  | pending (frame : Frame)
  | detached (frame : Frame)
  deriving DecidableEq

namespace Temporary

/-- The frame in the slot. -/
def frame? : Temporary → Option Frame
  | absent => none
  | pending f => some f
  | detached f => some f

/-- The slot with another frame in place of the one it holds. -/
def replace (g : Frame) : Temporary → Temporary
  | absent => absent
  | pending _ => pending g
  | detached _ => detached g

/-- The slot as a dump shows it. -/
def print : Temporary → String
  | absent => "TF: <none>\n"
  | pending f => "TF: " ++ f.print ++ "\n"
  | detached f => "TF (popped): " ++ f.print ++ "\n"

end Temporary

/-- The variables of a run; the topmost local frame comes first. -/
structure Memory where
  globals : Frame
  locals : List Frame
  temporary : Temporary
  deriving DecidableEq

/-- Why the memory refuses an operation. -/
inductive MemoryError where
  | frameMissing (scope : Scope)
  | variableMissing (place : Place)
  | redefinition (place : Place)
  | uninitialized (place : Place)
  | nothingToPush
  | nothingToPop
  deriving DecidableEq, Repr

namespace MemoryError

/-- The wording of an error. -/
def message : MemoryError → String
  | frameMissing scope => s!"frame {scope.mark} does not exist"
  | variableMissing place => s!"variable {place.print} is not defined"
  | redefinition place => s!"variable {place.print} is already defined"
  | uninitialized place => s!"variable {place.print} is not initialized"
  | nothingToPush => "no temporary frame to push"
  | nothingToPop => "no local frame to pop"

/-- The exit status of an error. -/
def status : MemoryError → Nat
  | frameMissing _ => 55
  | variableMissing _ => 54
  | redefinition _ => 52
  | uninitialized _ => 56
  | nothingToPush => 55
  | nothingToPop => 55

end MemoryError

namespace Memory

/-- The memory at the start of a run. -/
def empty : Memory := ⟨.empty, [], .absent⟩

/-! ## Frames -/

/-- The frame that a scope addresses. -/
def frame? (m : Memory) : Scope → Option Frame
  | .global => some m.globals
  | .topLocal => m.locals.head?
  | .temporary => m.temporary.frame?

/-- The memory with another frame in place of the one that a scope addresses. -/
def replace (m : Memory) (f : Frame) : Scope → Memory
  | .global => { m with globals := f }
  | .topLocal => { m with locals := m.locals.modifyHead fun _ => f }
  | .temporary => { m with temporary := m.temporary.replace f }

/-- Puts a new frame into the temporary slot. -/
def createFrame (m : Memory) : Memory := { m with temporary := .pending .empty }

/-- Moves the created frame onto the stack of local frames.  The slot is emptied first, and gets
back what it held if that is no frame to push. -/
def pushFrame (m : Memory) : Except MemoryError Unit × Memory :=
  let taken := { m with temporary := .absent }
  match m.temporary with
  | .pending f => (.ok (), { taken with locals := f :: taken.locals })
  | held => (.error .nothingToPush, { taken with temporary := held })

/-- Moves the topmost local frame into the temporary slot. -/
def popFrame (m : Memory) : Except MemoryError Unit × Memory :=
  match m.locals with
  | f :: rest => (.ok (), { m with locals := rest, temporary := .detached f })
  | [] => (.error .nothingToPop, m)

/-- The number of local frames. -/
def depth (m : Memory) : Nat := m.locals.length

/-! ## Variables -/

/-- Adds a variable without content. -/
def define (m : Memory) (p : Place) : Except MemoryError Unit × Memory :=
  match m.frame? p.scope with
  | none => (.error (.frameMissing p.scope), m)
  | some f =>
    match f.define? p.name with
    | none => (.error (.redefinition p), m)
    | some g => (.ok (), m.replace g p.scope)

/-- The variable at a place. -/
def read (m : Memory) (p : Place) : Except MemoryError Cell :=
  match m.frame? p.scope with
  | none => .error (.frameMissing p.scope)
  | some f =>
    match f.find? p.name with
    | none => .error (.variableMissing p)
    | some c => .ok c

/-- The content of the variable at a place. -/
def value (m : Memory) (p : Place) : Except MemoryError Value :=
  match m.read p with
  | .error e => .error e
  | .ok c =>
    match c.content with
    | none => .error (.uninitialized p)
    | some v => .ok v

/-- Assigns to the variable at a place, which has to be there. -/
def write (m : Memory) (p : Place) (v : Value) : Except MemoryError Unit × Memory :=
  match m.frame? p.scope with
  | none => (.error (.frameMissing p.scope), m)
  | some f =>
    match f.assign? p.name (some v) with
    | none => (.error (.variableMissing p), m)
    | some g => (.ok (), m.replace g p.scope)

/-! ## Refusals -/

section Refusals

variable {m : Memory} {p : Place} {v : Value} {e : MemoryError} {k : Memory}

/-- A frame that cannot be pushed is put back. -/
theorem pushFrame_of_error (refused : m.pushFrame = (.error e, k)) : k = m := by
  obtain ⟨globals, locals, temporary⟩ := m
  cases temporary <;> cases refused <;> rfl

theorem popFrame_of_error (refused : m.popFrame = (.error e, k)) : k = m := by
  unfold popFrame at refused
  split at refused <;> cases refused
  rfl

theorem define_of_error (refused : m.define p = (.error e, k)) : k = m := by
  unfold define at refused
  repeat' split at refused
  all_goals cases refused
  all_goals rfl

theorem write_of_error (refused : m.write p v = (.error e, k)) : k = m := by
  unfold write at refused
  repeat' split at refused
  all_goals cases refused
  all_goals rfl

end Refusals

/-! ## Dump -/

/-- The local frames as a dump shows them, from the top down to level 0. -/
def printLocals : List Frame → String
  | [] => ""
  | f :: rest => s!"LF[{rest.length}]: " ++ f.print ++ "\n" ++ printLocals rest

/-- The memory as a dump shows it. -/
def print (m : Memory) : String :=
  "GF: " ++ m.globals.print ++ "\n" ++ m.temporary.print
    ++ (if m.locals.isEmpty then "LF: <none>\n" else printLocals m.locals)

end Memory

end FrameCode
