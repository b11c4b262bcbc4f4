import FrameCode.Program
import FrameCode.Xml.Node

/-!
# Programs as XML documents

A program document has a `program` root with the language `IPPcode24`, and in it one
`instruction` element for each instruction, with the attributes `opcode` and `order`.  The
operands are the first `arg1`, `arg2` and `arg3` elements there are, each with a tag in the
attribute `type` and the text of the operand in it.

`Program.ofXml` keeps order numbers as they are declared.  A number that cannot be read is 0,
which no order has.
-/

namespace FrameCode

namespace Xml

/-- The attributes an instruction has to have. -/
inductive Required where
  | opcode
  | order
  deriving DecidableEq, Repr

/-- The name of a required attribute. -/
def Required.name : Required → String
  | opcode => "opcode"
  | order => "order"

end Xml

/-- Why a document is refused; instructions without an order number are counted from 1. -/
inductive DocumentError where
  | malformed
  | notAProgram
  | missingAttribute (index : Nat) (required : Xml.Required)
  | operand (order : Nat) (error : OperandError)
  deriving DecidableEq, Repr

namespace DocumentError

/-- The wording of an error. -/
def message : DocumentError → String
  | malformed => "malformed XML"
  | notAProgram => "root element must be <program language=\"IPPcode24\">"
  | missingAttribute index required =>
    s!"instruction #{index}: missing '{required.name}' attribute"
  | operand order error => s!"instruction {order}: {error.message}"

/-- The exit status of an error. -/
def status : DocumentError → Nat
  | malformed => 31
  | notAProgram => 32
  | missingAttribute _ _ => 32
  | operand _ error => error.status

end DocumentError

namespace Xml

/-- The names of operand elements, in the order of the positions. -/
def operandNames : List String := ["arg1", "arg2", "arg3"]

/-- The operand elements of an instruction element, in the order of the positions. -/
def operandNodes (n : Node) : List Node :=
  operandNames.filterMap fun name => (n.childrenNamed name).head?

/-- Reads operand elements. -/
def readOperands : List Node → Except OperandError (List Operand)
  | [] => .ok []
  | n :: rest =>
    match Operand.read ((n.attribute? "type").getD "") n.allText with
    | .error e => .error e
    | .ok x =>
      match readOperands rest with
      | .error e => .error e
      | .ok xs => .ok (x :: xs)

/-- Reads an order number, with blanks around it. -/
def readOrder (s : String) : Nat :=
  (Numeral.natural? Instruction.orderLimit (Text.trim s.toList)).getD 0

/-- Reads the instruction element with the given number. -/
def readInstruction (index : Nat) (n : Node) : Except DocumentError Instruction :=
  match n.attribute? "opcode" with
  | none => .error (.missingAttribute index .opcode)
  | some opcode =>
    match n.attribute? "order" with
    | none => .error (.missingAttribute index .order)
    | some order =>
      match readOperands (operandNodes n) with
      | .error e => .error (.operand (readOrder order) e)
      | .ok xs => .ok ⟨.ofText opcode, xs, readOrder order⟩

/-- Reads instruction elements, the first of which has the number `index`. -/
def readInstructions (index : Nat) : List Node → Except DocumentError (List Instruction)
  | [] => .ok []
  | n :: rest =>
    match readInstruction index n with
    | .error e => .error e
    | .ok i =>
      match readInstructions (index + 1) rest with
      | .error e => .error e
      | .ok is => .ok (i :: is)

/-- The element is the root of a program document. -/
def isProgram (root : Node) : Bool :=
  root.name? == some "program" && root.attribute? "language" == some "IPPcode24"

end Xml

/-- Reads a program from the root element of a document. -/
def Program.ofRoot (root : Xml.Node) : Except DocumentError Program :=
  if Xml.isProgram root then
    (Xml.readInstructions 1 (root.childrenNamed "instruction")).map Program.mk
  else .error .notAProgram

/-- Reads a program from an XML document. -/
def Program.ofXml (parse : Xml.Parser) (text : String) : Except DocumentError Program :=
  match parse text.toList with
  | none => .error .malformed
  | some root => Program.ofRoot root

end FrameCode
