import FrameCode.Program
import FrameCode.Source.Error

/-!
# Reading source text

`Program.ofSource` reads a program: the header on a line of its own, then one instruction on each
line that is not blank, numbered from 1.  It stops at the first line with a fault.

Each line is read on its own, given whether the header came before it and the number that an
instruction on it gets; `readLine` is that reading.

The count does not stop at the greatest order number.  A program that is read has order numbers of
32 bits just if it has at most 2³² - 1 instructions (`Program.inRange_iff_of_ofSource`).
-/

namespace FrameCode

namespace Source

/-! ## Names -/

/-- The characters other than letters that a name can start with. -/
def nameMarks : List Char := ['_', '-', '$', '&', '%', '*', '!', '?']

/-- The character can start a name. -/
def startsName (c : Char) : Bool := c.isAlpha || nameMarks.contains c

/-- The text is a name of a variable or a label: a letter or mark, then letters, marks and
digits. -/
def isName : List Char → Bool
  | [] => false
  | c :: cs => startsName c && cs.all fun d => startsName d || d.isDigit

/-! ## Operands -/

/-- Reads a variable. -/
def readPlace : Token → Except LineFault Place
  | .tagged tag body =>
    match Scope.ofMark? tag with
    | none => .error (.operand .place (Token.tagged tag body).print)
    | some scope =>
      if isName body.toList then .ok ⟨scope, body⟩
      else .error (.operand .placeName (Token.tagged tag body).print)
  | t => .error (.operand .place t.print)

/-- Reads a literal. -/
def readLiteral : Token → Except LineFault Value
  | .tagged tag body =>
    let text := (Token.tagged tag body).print
    match ValueType.ofName? tag with
    | some .int =>
      match Numeral.literal? body.toList with
      | some n => .ok (.int n)
      | none => .error (.number text)
    | some .bool =>
      if Text.foldCase body = "TRUE" then .ok (.bool true)
      else if Text.foldCase body = "FALSE" then .ok (.bool false)
      else .error (.operand .bool text)
    | some .nil => if body = "nil" then .ok .nil else .error (.operand .nil text)
    | some .string =>
      if Text.Escape.wellFormed body.toList then .ok (.str body) else .error (.escape text)
    | none => .error (.operand .symbol text)
  | t => .error (.operand .symbol t.print)

/-- Reads a literal or a variable.  What is neither is reported as a bad literal. -/
def readSymbol (t : Token) : Except LineFault Operand :=
  match readPlace t with
  | .ok p => .ok (.place p)
  | .error _ => (readLiteral t).map .literal

/-- Reads a label. -/
def readLabel : Token → Except LineFault Operand
  | .word name =>
    if isName name.toList then .ok (.label name) else .error (.operand .label name)
  | t => .error (.operand .label t.print)

/-- Reads the name of a type that can be read from the input. -/
def readType : Token → Except LineFault Operand
  | .word name =>
    if (ValueType.ofName? name).any ValueType.readable then .ok (.type name)
    else .error (.operand .type name)
  | t => .error (.operand .type t.print)

/-- Reads what an operand position asks for. -/
def readOperand : Slot → Token → Except LineFault Operand
  | .place, t => (readPlace t).map .place
  | .symbol, t => readSymbol t
  | .label, t => readLabel t
  | .type, t => readType t

/-- Reads as many operands as there are positions and tokens, from the left. -/
def readOperands : List Slot → List Token → Except LineFault (List Operand)
  | s :: slots, t :: tokens =>
    match readOperand s t with
    | .error e => .error e
    | .ok x =>
      match readOperands slots tokens with
      | .error e => .error e
      | .ok xs => .ok (x :: xs)
  | _, _ => .ok []

/-! ## Lines -/

/-- The opcode that a token names. -/
def opcode? : Token → Option Opcode
  | .word text => Opcode.ofMnemonic? text
  | _ => none

/-- Reads the tokens of an instruction: the opcode, then as many operands as it takes. -/
def readInstruction (order : Nat) (first : Token) (operands : List Token) :
    Except LineFault Instruction :=
  match opcode? first with
  | none => .error (.unknownOpcode first.print)
  | some op =>
    if operands.length = op.arity then
      match readOperands op.signature operands with
      | .error e => .error e
      | .ok xs => .ok ⟨.known op, xs, order⟩
    else .error (.operandCount op operands.length)

/-- What a line holds. -/
inductive Content where
  | blank
  | header
  | instruction (i : Instruction)
  deriving DecidableEq, Repr

/-- Reads one line; `seen` tells whether the header came before it, and an instruction on it gets
the number `order`. -/
def readLine (seen : Bool) (order : Nat) (line : List Char) : Except LineFault Content :=
  match Token.ofLine line with
  | .error word => .error (.unexpected word)
  | .ok [] => .ok .blank
  | .ok (.header :: rest) =>
    if seen then .error .duplicateHeader
    else
      match rest with
      | [] => .ok .header
      | extra :: _ => .error (.unexpected extra.print)
  | .ok (first :: operands) =>
    if seen then (readInstruction order first operands).map .instruction
    else .error .missingHeader

/-- Reads lines from the one with the number `line` on. -/
def readLines (seen : Bool) (line order : Nat) :
    List (List Char) → Except SourceError (List Instruction)
  | [] => .ok []
  | l :: rest =>
    match readLine seen order l with
    | .error cause => .error ⟨line, cause⟩
    | .ok .blank => readLines seen (line + 1) order rest
    | .ok .header => readLines true (line + 1) order rest
    | .ok (.instruction i) =>
      match readLines seen (line + 1) (order + 1) rest with
      | .error e => .error e
      | .ok is => .ok (i :: is)

end Source

/-- Reads a program from source text. -/
def Program.ofSource (text : String) : Except SourceError Program :=
  (Source.readLines false 1 1 (Text.lines text.toList)).map Program.mk

end FrameCode
