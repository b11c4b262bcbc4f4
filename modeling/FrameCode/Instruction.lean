import FrameCode.Opcode
import FrameCode.Operand
import FrameCode.Text.Blank

/-!
# Instructions

An instruction has a mnemonic, the opcode it names, operands, and the order number that fixes its
place in a program.  Without an opcode an instruction can be carried and shown, and does nothing
when it is reached.

Order numbers have 32 bits, so they are below `Instruction.orderLimit`.  Here they are natural
numbers; `Program.InRange` is about the programs that keep to the limit.
-/

namespace FrameCode

/-- The name of what an instruction does. -/
structure Mnemonic where
  /-- The mnemonic as it is shown. -/
  text : String
  /-- The opcode that the instruction is executed as. -/
  opcode? : Option Opcode
  deriving DecidableEq, Repr

namespace Mnemonic

/-- The mnemonic of an opcode. -/
def known (op : Opcode) : Mnemonic := ⟨op.mnemonic, some op⟩

/-- A mnemonic that names no opcode. -/
def unknown (text : String) : Mnemonic := ⟨text, none⟩

/-- The mnemonic with a given spelling, without the blanks around it and in upper case. -/
def ofText (s : String) : Mnemonic :=
  let spelling := String.ofList (Text.upper (Text.trim s.toList))
  ⟨spelling, Opcode.ofMnemonic? spelling⟩

end Mnemonic

/-- One instruction of a program. -/
structure Instruction where
  mnemonic : Mnemonic
  operands : List Operand
  order : Nat
  deriving DecidableEq, Repr

namespace Instruction

/-- The least number that is too great for an order number. -/
def orderLimit : Nat := 0x100000000

/-- The opcode of an instruction, if its mnemonic names one. -/
def opcode? (i : Instruction) : Option Opcode := i.mnemonic.opcode?

/-- The instruction on one line, without its order number. -/
def print (i : Instruction) : String :=
  String.join (i.mnemonic.text :: i.operands.map fun x => " " ++ x.print)

/-- The order number and the instruction. -/
def listing (i : Instruction) : String := i.order.repr ++ " " ++ i.print

/-- The instruction with its string literals in canonical form. -/
def canonical (i : Instruction) : Instruction :=
  { i with operands := i.operands.map Operand.canonical }

/-- Equality of instructions, with string literals compared by their characters. -/
def same (i j : Instruction) : Bool :=
  i.mnemonic == j.mnemonic && i.order == j.order
    && i.operands.length == j.operands.length
    && (i.operands.zip j.operands).all fun (x, y) => x.same y

/-- The label that an instruction defines. -/
def definedLabel? (i : Instruction) : Option String :=
  match i.opcode?, i.operands with
  | some .label, .label name :: _ => some name
  | _, _ => none

end Instruction

end FrameCode
