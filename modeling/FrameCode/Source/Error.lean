import FrameCode.Opcode
import FrameCode.Source.Token

/-!
# Errors in source text

An error has the number of the line it was found on, counted from 1, and a cause.
-/

namespace FrameCode

namespace Source

/-- What an operand position asks for. -/
inductive Expectation where
  | place
  | placeName
  | symbol
  | bool
  | nil
  | label
  | type
  deriving DecidableEq, Repr

/-- The wording of an expectation. -/
def Expectation.phrase : Expectation → String
  | place => "a variable"
  | placeName => "a variable name"
  | symbol => "a variable or literal"
  | bool => "bool@true or bool@false"
  | nil => "nil@nil"
  | label => "a label"
  | type => "int, bool or string"

/-- Why a line is refused. -/
inductive LineFault where
  | missingHeader
  | duplicateHeader
  | unknownOpcode (text : String)
  | operandCount (op : Opcode) (found : Nat)
  | operand (expected : Expectation) (text : String)
  | number (text : String)
  | escape (text : String)
  | unexpected (text : String)
  deriving DecidableEq, Repr

namespace LineFault

/-- The wording of a fault. -/
def message : LineFault → String
  | missingHeader => s!"missing {header} header"
  | duplicateHeader => s!"duplicate {header} header"
  | unknownOpcode text => s!"unknown opcode '{text}'"
  | operandCount op found => s!"{op.mnemonic} expects {op.arity} operand(s), got {found}"
  | operand expected text => s!"expected {expected.phrase}, found '{text}'"
  | number text => s!"invalid number '{text}'"
  | escape text => s!"invalid escape sequence in '{text}'"
  | unexpected text => s!"unexpected token '{text}'"

/-- The exit status of a fault. -/
def status : LineFault → Nat
  | missingHeader => 21
  | unknownOpcode _ => 22
  | duplicateHeader => 23
  | operandCount _ _ => 23
  | operand _ _ => 23
  | number _ => 23
  | escape _ => 23
  | unexpected _ => 23

end LineFault

end Source

/-- Why a source text is refused. -/
structure SourceError where
  line : Nat
  cause : Source.LineFault
  deriving DecidableEq, Repr

namespace SourceError

/-- The wording of an error. -/
def message (e : SourceError) : String := s!"line {e.line}: {e.cause.message}"

/-- The exit status of an error. -/
def status (e : SourceError) : Nat := e.cause.status

end SourceError

end FrameCode
