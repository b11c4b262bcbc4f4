import FrameCode.Numeral
import FrameCode.Xml.Name

/-!
# Character data of XML

Text and attribute values hold characters that stand for themselves and references to characters.
`units?` tells them apart; `text` and `attributeValue` then give the characters they stand for.
Line ends and tabs are normalised where they stand for themselves, never where a reference names
them.
-/

namespace FrameCode.Xml

/-- A character that stands in a document, by itself or by a reference. -/
inductive Unit where
  | plain (c : Char)
  | reference (c : Char)
  deriving DecidableEq, Repr

/-! ## References -/

/-- The character with the given code.  A code without a character gives the replacement
character. -/
def charOfCode (n : Nat) : Char := if n.isValidChar then Char.ofNat n else Char.ofNat 0xFFFD

/-- The character that digits of base `b` name. -/
def numbered? (b : Nat) (digits : List Char) : Option Char :=
  let n := Numeral.magnitude b digits
  if Numeral.areDigits b digits && n < 0x100000000 && isXmlChar (charOfCode n) then
    some (charOfCode n)
  else none

/-- The named characters. -/
def entities : List (String × Char) :=
  [("quot", '"'), ("amp", '&'), ("apos", '\''), ("lt", '<'), ("gt", '>')]

/-- The character of the reference with the given text between `&` and `;`. -/
def reference? : List Char → Option Char
  | '#' :: 'x' :: digits => numbered? 16 digits
  | '#' :: digits => numbered? 10 digits
  | name => entities.lookup (String.ofList name)

/-- The units of chunks that each start after an `&`. -/
def referred? : List (List Char) → Option (List Unit)
  | [] => some []
  | chunk :: chunks => do
    let (body, plain) ← Text.cut ';' chunk
    let c ← reference? body
    let rest ← referred? chunks
    some (.reference c :: plain.map .plain ++ rest)

/-- The units of a text; `none` if an `&` does not start a reference. -/
def units? (cs : List Char) : Option (List Unit) :=
  match cs.splitOnP (· == '&') with
  | [] => some []
  | plain :: chunks => (referred? chunks).map (plain.map .plain ++ ·)

/-! ## Normalisation -/

/-- The characters of a text.  A plain carriage return, with a plain newline after it if there is
one, gives a newline.  It is kept before a reference, and at the end right after one. -/
def text (afterReference : Bool) : List Unit → List Char
  | [] => []
  | .reference c :: rest => c :: text true rest
  | .plain '\r' :: .plain '\n' :: rest => '\n' :: text false rest
  | .plain '\r' :: .reference c :: rest => '\r' :: c :: text true rest
  | [.plain '\r'] => if afterReference then ['\r'] else ['\n']
  | .plain '\r' :: rest => '\n' :: text false rest
  | .plain c :: rest => c :: text false rest

/-- The characters of an attribute value.  A plain blank gives a space, and so do a plain carriage
return and newline together. -/
def attributeValue : List Unit → List Char
  | [] => []
  | .reference c :: rest => c :: attributeValue rest
  | .plain '\r' :: .plain '\n' :: rest => ' ' :: attributeValue rest
  | .plain c :: rest => (if isSpace c then ' ' else c) :: attributeValue rest

/-- The characters of a run of text, which does not hold the mark that ends a CDATA section. -/
def readText? (cs : List Char) : Option (List Char) :=
  if cs.all isXmlChar && (Text.cutAt [']', ']', '>'] cs).isNone then
    (units? cs).map (text false)
  else none

/-- The characters of a CDATA section, where nothing is a reference. -/
def readCdata? (cs : List Char) : Option (List Char) :=
  if cs.all isXmlChar then some (text false (cs.map .plain)) else none

/-- The characters of an attribute value between its quotes. -/
def readValue? (cs : List Char) : Option (List Char) :=
  if cs.all fun c => isXmlChar c && c != '<' then (units? cs).map attributeValue else none

end FrameCode.Xml
