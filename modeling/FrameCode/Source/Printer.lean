import FrameCode.Program
import FrameCode.Source.Token

/-!
# Printing source text

`Program.toSource` writes the header and one instruction on each line.  String literals are
written in canonical form, so no blank, `#` or backslash of theirs stands in the text as such.
-/

namespace FrameCode

/-- The line of an instruction, with its newline. -/
def Instruction.sourceLine (i : Instruction) : String := i.canonical.print ++ "\n"

/-- The program as source text. -/
def Program.toSource (p : Program) : String :=
  Source.header ++ "\n" ++ String.join (p.instructions.map Instruction.sourceLine)

end FrameCode
