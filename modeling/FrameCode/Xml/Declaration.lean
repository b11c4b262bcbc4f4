import FrameCode.Xml.Name

/-!
# The XML declaration

A document may start with a declaration: `<?xml ` and up to three attributes, the version, the
encoding and whether the document stands alone, in this order.  The version has to be there.

Each attribute is recognised by how its name begins, and its value is free, so `skip?` only finds
where the document goes on.  A value may hold the mark that ends the declaration, so the
declaration has to be passed before the rest of the document is split into pieces.
-/

namespace FrameCode.Xml.Declaration

/-! ## Attributes -/

/-- Passes a quoted value, which holds no `<`. -/
def skipValue? : List Char → Option (List Char)
  | [] => none
  | quote :: cs =>
    let value := cs.takeWhile (· != quote)
    if (quote = '"' ∨ quote = '\'') ∧ value.all fun c => isXmlChar c && c != '<' then
      (cs.dropWhile (· != quote)).tail?
    else none

/-- Passes a name, an equals sign and a value. -/
def skipAttribute? (cs : List Char) : Option (List Char) := do
  let (_, rest) ← QName.read? cs
  match rest.dropWhile isSpace with
  | '=' :: rest => skipValue? (rest.dropWhile isSpace)
  | _ => none

/-- The mark that ends a declaration. -/
def closing : List Char := ['?', '>']

/-- Passes blanks.  There has to be one, unless the declaration ends here. -/
def separate? (cs : List Char) : Option (List Char) :=
  if cs.head?.any isSpace then some (cs.dropWhile isSpace)
  else if closing.isPrefixOf cs then some cs
  else none

/-- Passes an attribute whose name begins with `start`, and the blanks after it.  An attribute
that is not there is passed too, unless it is required. -/
def skipPart? (required : Bool) (start : String) (cs : List Char) : Option (List Char) :=
  if start.toList.isPrefixOf cs then (skipAttribute? cs).bind separate?
  else if required then none
  else some cs

/-! ## Declarations -/

/-- How a declaration begins. -/
def opening : List Char := ['<', '?', 'x', 'm', 'l', ' ']

/-- Passes what stands between the blank of `opening` and the end of the declaration. -/
def skipContent? (cs : List Char) : Option (List Char) := do
  let cs ← skipPart? true "version" (cs.dropWhile isSpace)
  let cs ← skipPart? false "encoding" cs
  let cs ← skipPart? false "standalone" cs
  closing.isPrefixOf? cs

/-- The text after the declaration; the whole text if it does not begin like one. -/
def skip? (cs : List Char) : Option (List Char) :=
  match opening.isPrefixOf? cs with
  | some rest => skipContent? rest
  | none => some cs

end FrameCode.Xml.Declaration
