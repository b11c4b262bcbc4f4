/-!
# Outlets

An outlet takes the text that a run writes.  Whether it refuses a write, and with which wording,
depends on nothing but the number of writes tried before; for a flush the number of flushes tried
before counts too.  A refused write leaves no text.
-/

namespace FrameCode

/-- A channel for text. -/
structure Outlet where
  /-- The refusal of the write with the given number, counted from 0. -/
  refusesWrite : Nat → Option String
  /-- The refusal of a flush after the given numbers of writes and of flushes. -/
  refusesFlush : Nat → Nat → Option String
  /-- The number of writes so far, the refused ones included. -/
  tried : Nat
  /-- The number of flushes so far, the refused ones included. -/
  flushed : Nat
  /-- The texts that were taken, the latest first. -/
  taken : List String

namespace Outlet

/-- An outlet that takes everything. -/
def reliable : Outlet := ⟨fun _ => none, fun _ _ => none, 0, 0, []⟩

/-- The outlet after one more write, and the refusal of that write if there is one. -/
def write (o : Outlet) (s : String) : Option String × Outlet :=
  match o.refusesWrite o.tried with
  | some reason => (some reason, { o with tried := o.tried + 1 })
  | none => (none, { o with tried := o.tried + 1, taken := s :: o.taken })

/-- The outlet after one more flush, and the refusal of that flush if there is one. -/
def flush (o : Outlet) : Option String × Outlet :=
  (o.refusesFlush o.tried o.flushed, { o with flushed := o.flushed + 1 })

/-- All the text that was taken. -/
def text (o : Outlet) : String := String.join o.taken.reverse

end Outlet

end FrameCode
