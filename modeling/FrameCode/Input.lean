import FrameCode.Text.Blank
import FrameCode.Text.Upper
import FrameCode.Value

/-!
# Input lines

The input is a sequence of bytes, and each read takes one line of it.  A line ends after a newline
byte or with the input; the newline and a carriage return right before it are not part of its
text.  A line that is not UTF-8 is taken all the same, so the next read starts at the next line.

`Line.int`, `Line.bool` and `Line.text` give the value of a line for each readable type.  A line
that has none, and a read past the end, give the default value of the type.
-/

namespace FrameCode

/-- What a read takes from the input. -/
inductive Line where
  | missing
  | garbled
  | text (s : String)
  deriving DecidableEq, Repr

namespace Line

/-- The integer on a line: a decimal numeral with blanks around it. -/
def int : Line → Int64
  | text s => (Numeral.decimal? (Text.trim s.toList)).getD 0
  | missing => 0
  | garbled => 0

/-- The truth value on a line: `true` in any case of its letters, with blanks around it. -/
def bool : Line → Bool
  | text s => Text.foldCase (String.ofList (Text.trim s.toList)) == "TRUE"
  | missing => false
  | garbled => false

/-- The plain text of a line. -/
def plain : Line → String
  | text s => s
  | missing => ""
  | garbled => ""

/-- Why a line cannot be read. -/
def failure? : Line → Option String
  | garbled => some "stream did not contain valid UTF-8"
  | missing => none
  | text _ => none

/-- The line with the given bytes, its newline included. -/
def ofBytes (bytes : List UInt8) : Line :=
  let content :=
    match bytes.reverse with
    | 10 :: 13 :: rest => rest.reverse
    | 10 :: rest => rest.reverse
    | _ => bytes
  match String.fromUTF8? content.toByteArray with
  | some s => text s
  | none => garbled

end Line

/-- The bytes that have not been read. -/
structure Input where
  rest : List UInt8
  deriving DecidableEq, Repr

namespace Input

/-- The input with the bytes of a text. -/
def ofText (s : String) : Input := ⟨s.toUTF8.data.toList⟩

/-- The bytes up to and including the first newline, and the bytes after it. -/
def splitLine : List UInt8 → List UInt8 × List UInt8
  | [] => ([], [])
  | b :: bytes =>
    if b = 10 then ([b], bytes)
    else
      let (line, rest) := splitLine bytes
      (b :: line, rest)

/-- Takes one line. -/
def next (input : Input) : Line × Input :=
  match input.rest with
  | [] => (.missing, input)
  | b :: bytes =>
    let (line, rest) := splitLine (b :: bytes)
    (.ofBytes line, ⟨rest⟩)

end Input

end FrameCode
