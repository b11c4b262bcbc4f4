import FrameCode.Text.Split

/-!
# Characters and names of XML

The character classes of XML 1.0, and qualified names: a name with at most one colon, which
separates its qualifier from the rest.
-/

namespace FrameCode.Xml

/-! ## Characters -/

/-- The blanks of XML. -/
def isSpace (c : Char) : Bool := c == ' ' || c == '\t' || c == '\n' || c == '\r'

/-- The characters a document may hold. -/
def isXmlChar (c : Char) : Bool :=
  if c.toNat < 0x20 then isSpace c else c.toNat != 0xFFFE && c.toNat != 0xFFFF

/-- The code lies in one of the ranges, whose ends are included. -/
def inRanges (ranges : List (Nat × Nat)) (n : Nat) : Bool :=
  ranges.any fun (first, last) => first ≤ n && n ≤ last

/-- The codes above ASCII of the characters that can start a name. -/
def nameStartRanges : List (Nat × Nat) :=
  [(0xC0, 0xD6), (0xD8, 0xF6), (0xF8, 0x2FF), (0x370, 0x37D), (0x37F, 0x1FFF), (0x200C, 0x200D),
   (0x2070, 0x218F), (0x2C00, 0x2FEF), (0x3001, 0xD7FF), (0xF900, 0xFDCF), (0xFDF0, 0xFFFD),
   (0x10000, 0xEFFFF)]

/-- The codes above ASCII of the other characters of names. -/
def nameRestRanges : List (Nat × Nat) := [(0xB7, 0xB7), (0x300, 0x36F), (0x203F, 0x2040)]

/-- The character can start a name. -/
def isNameStart (c : Char) : Bool :=
  c.isAlpha || c == ':' || c == '_' || inRanges nameStartRanges c.toNat

/-- The character can occur in a name. -/
def isNameChar (c : Char) : Bool :=
  isNameStart c || c.isDigit || c == '-' || c == '.' || inRanges nameRestRanges c.toNat

/-! ## Names -/

/-- A qualified name; the qualifier of a name without one is empty. -/
structure QName where
  qualifier : String
  name : String
  deriving DecidableEq, Repr

namespace QName

/-- The qualified name with the given text. -/
def ofText? (cs : List Char) : Option QName :=
  let (qualifier, name) := (Text.cut ':' cs).getD ([], cs)
  if name.contains ':' || !(name.head?.any isNameStart) || !(qualifier.head?.all isNameStart) then
    none
  else some ⟨String.ofList qualifier, String.ofList name⟩

/-- Reads a qualified name at the start of a text, and gives what follows it. -/
def read? (cs : List Char) : Option (QName × List Char) :=
  (ofText? (cs.takeWhile isNameChar)).map fun q => (q, cs.dropWhile isNameChar)

end QName

end FrameCode.Xml
