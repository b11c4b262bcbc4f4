import FrameCode.Text.Upper

/-!
# Opcodes

The operations an instruction can name, their mnemonics, and the operands each of them takes.
Mnemonics are recognised whatever the case of their ASCII letters.
-/

namespace FrameCode

/-- The operations of the machine. -/
inductive Opcode where
  | move
  | createFrame
  | pushFrame
  | popFrame
  | defvar
  | call
  | ret
  | pushs
  | pops
  | add
  | sub
  | mul
  | idiv
  | lt
  | gt
  | eq
  | and
  | or
  | not
  | int2char
  | stri2int
  | read
  | write
  | concat
  | strlen
  | getchar
  | setchar
  | type
  | label
  | jump
  | jumpIfEq
  | jumpIfNeq
  | exit
  | dprint
  | break
  deriving DecidableEq, Repr

/-- What an operand position accepts: a variable, a value (literal or variable), a label, or the
name of a type. -/
inductive Slot where
  | place
  | symbol
  | label
  | type
  deriving DecidableEq, Repr

namespace Opcode

/-- All opcodes. -/
def all : List Opcode :=
  [.move, .createFrame, .pushFrame, .popFrame, .defvar, .call, .ret, .pushs, .pops, .add, .sub,
   .mul, .idiv, .lt, .gt, .eq, .and, .or, .not, .int2char, .stri2int, .read, .write, .concat,
   .strlen, .getchar, .setchar, .type, .label, .jump, .jumpIfEq, .jumpIfNeq, .exit, .dprint,
   .break]

/-- The mnemonic of an opcode. -/
def mnemonic : Opcode → String
  | .move => "MOVE"
  | .createFrame => "CREATEFRAME"
  | .pushFrame => "PUSHFRAME"
  | .popFrame => "POPFRAME"
  | .defvar => "DEFVAR"
  | .call => "CALL"
  | .ret => "RETURN"
  | .pushs => "PUSHS"
  | .pops => "POPS"
  | .add => "ADD"
  | .sub => "SUB"
  | .mul => "MUL"
  | .idiv => "IDIV"
  | .lt => "LT"
  | .gt => "GT"
  | .eq => "EQ"
  | .and => "AND"
  | .or => "OR"
  | .not => "NOT"
  | .int2char => "INT2CHAR"
  | .stri2int => "STRI2INT"
  | .read => "READ"
  | .write => "WRITE"
  | .concat => "CONCAT"
  | .strlen => "STRLEN"
  | .getchar => "GETCHAR"
  | .setchar => "SETCHAR"
  | .type => "TYPE"
  | .label => "LABEL"
  | .jump => "JUMP"
  | .jumpIfEq => "JUMPIFEQ"
  | .jumpIfNeq => "JUMPIFNEQ"
  | .exit => "EXIT"
  | .dprint => "DPRINT"
  | .break => "BREAK"

/-- The opcode with the given mnemonic, in any case of its letters. -/
def ofMnemonic? (s : String) : Option Opcode :=
  let s := Text.foldCase s
  all.find? (·.mnemonic == s)

/-- The operand positions of an opcode. -/
def signature : Opcode → List Slot
  | .createFrame | .pushFrame | .popFrame | .ret | .break => []
  | .defvar | .pops => [.place]
  | .call | .label | .jump => [.label]
  | .pushs | .write | .exit | .dprint => [.symbol]
  | .move | .not | .int2char | .strlen | .type => [.place, .symbol]
  | .read => [.place, .type]
  | .add | .sub | .mul | .idiv | .lt | .gt | .eq | .and | .or | .stri2int | .concat | .getchar
  | .setchar => [.place, .symbol, .symbol]
  | .jumpIfEq | .jumpIfNeq => [.label, .symbol, .symbol]

/-- The number of operands of an opcode. -/
def arity (op : Opcode) : Nat := op.signature.length

theorem mem_all (op : Opcode) : op ∈ all := by cases op <;> decide

end Opcode

end FrameCode
