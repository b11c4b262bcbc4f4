import FrameCode.Labels
import FrameCode.Memory

/-!
# Faults

A `Cause` says why an instruction fails.  A `Fault` is a cause with the order number that was
given to it where it was raised.  A `RunError` is the failure of a run: either the program has no
order, or there was a fault.
-/

namespace FrameCode

/-- Why an instruction fails. -/
inductive Cause where
  | operandCount (op : Opcode) (found : Nat)
  | operandKind (op : Opcode) (position : Nat)
  | unreadableType (name : String)
  | undefinedLabel (name : String)
  | memory (error : MemoryError)
  | typeMismatch (op : Opcode)
  | dataStackEmpty
  | callStackEmpty
  | divisionByZero
  | exitCodeOutOfRange (code : Int64)
  | indexOutOfRange (index : Int64) (length : Nat)
  | emptyReplacement
  | charCodeOutOfRange (code : Int64)
  | output (reason : String)
  deriving DecidableEq, Repr

namespace Cause

/-- The wording of a failure for this cause at the instruction with the given order number. -/
def message (order : Nat) : Cause → String
  | operandCount op found =>
    s!"{op.mnemonic} expects {op.arity} operands, got {found} at instruction {order}"
  | operandKind op position =>
    s!"operand {position} of {op.mnemonic} has the wrong kind at instruction {order}"
  | unreadableType name => s!"cannot read values of type '{name}' at instruction {order}"
  | undefinedLabel name => s!"undefined label '{name}' at instruction {order}"
  | memory error => s!"{error.message} at instruction {order}"
  | typeMismatch op => s!"operand type mismatch in {op.mnemonic} at instruction {order}"
  | dataStackEmpty => s!"data stack is empty at instruction {order}"
  | callStackEmpty => s!"call stack is empty at instruction {order}"
  | divisionByZero => s!"division by zero at instruction {order}"
  | exitCodeOutOfRange code =>
    s!"exit code {Numeral.print code} out of range 0..=9 at instruction {order}"
  | indexOutOfRange index length =>
    s!"string index {Numeral.print index} out of range (length {length}) at instruction {order}"
  | emptyReplacement => s!"empty replacement string at instruction {order}"
  | charCodeOutOfRange code =>
    s!"character code {Numeral.print code} out of range 0..=255 at instruction {order}"
  | output reason => s!"output failed at instruction {order}: {reason}"

/-- The exit status of a failure for this cause. -/
def status : Cause → Nat
  | operandCount _ _ => 32
  | operandKind _ _ => 32
  | unreadableType _ => 32
  | undefinedLabel _ => 52
  | memory error => error.status
  | typeMismatch _ => 53
  | dataStackEmpty => 56
  | callStackEmpty => 56
  | divisionByZero => 57
  | exitCodeOutOfRange _ => 57
  | indexOutOfRange _ _ => 58
  | emptyReplacement => 58
  | charCodeOutOfRange _ => 58
  | output _ => 12

end Cause

/-- The failure of an instruction: the order number that its report names, and its cause. -/
structure Fault where
  order : Nat
  cause : Cause
  deriving DecidableEq, Repr

namespace Fault

/-- The wording of a fault. -/
def message (e : Fault) : String := e.cause.message e.order

/-- The exit status of a fault. -/
def status (e : Fault) : Nat := e.cause.status

end Fault

/-- Why a run fails. -/
inductive RunError where
  | unordered (error : OrderError)
  | fault (fault : Fault)
  deriving DecidableEq, Repr

namespace RunError

/-- The wording of an error. -/
def message : RunError → String
  | unordered error => error.message
  | fault e => e.message

/-- The exit status of an error. -/
def status : RunError → Nat
  | unordered error => error.status
  | fault e => e.status

/-- The order number of the failing instruction. -/
def order? : RunError → Option Nat
  | unordered _ => none
  | fault e => some e.order

end RunError

end FrameCode
