import FrameCode.Source.Reader
import FrameCode.Xml.Program

/-!
# Forms of programs

A program comes as source text or as an XML document.  A text whose first character other than a
blank is `<` is taken for a document, any other text for source text.
-/

namespace FrameCode

/-- Why a text holds no program. -/
inductive TextError where
  | source (error : SourceError)
  | document (error : DocumentError)
  deriving DecidableEq, Repr

namespace TextError

/-- The wording of an error. -/
def message : TextError → String
  | source error => error.message
  | document error => error.message

/-- The exit status of an error. -/
def status : TextError → Nat
  | source error => error.status
  | document error => error.status

end TextError

/-- The text is taken for a document. -/
def isDocument (text : String) : Bool := (Text.trimStart text.toList).head? == some '<'

/-- Reads a program in either form. -/
def Program.ofText (parse : Xml.Parser) (text : String) : Except TextError Program :=
  if isDocument text then (Program.ofXml parse text).mapError .document
  else (Program.ofSource text).mapError .source

end FrameCode
