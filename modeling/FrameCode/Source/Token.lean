import FrameCode.Text.Blank
import FrameCode.Text.Split
import FrameCode.Text.Upper

/-!
# Tokens of a source line

A line of source text is cut at its first `#`, and each word of the rest is a token.  A word with
an `@` is split at the first one.  A word that starts with a dot is the header or no token at all.
-/

namespace FrameCode.Source

/-- The header of a source text. -/
def header : String := ".IPPcode24"

/-- A word of a line. -/
inductive Token where
  | header
  | word (text : String)
  | tagged (tag body : String)
  deriving DecidableEq, Repr

namespace Token

/-- The text of a token. -/
def print : Token → String
  | header => Source.header
  | word text => text
  | tagged tag body => tag ++ "@" ++ body

/-- The token that a word is. -/
def ofWord? (w : List Char) : Option Token :=
  if Text.foldCase (String.ofList w) = Text.foldCase Source.header then some header
  else if w.head? = some '.' then none
  else
    match Text.cut '@' w with
    | some (tag, body) => some (tagged (String.ofList tag) (String.ofList body))
    | none => some (word (String.ofList w))

/-- The tokens of some words, or the first word that is none. -/
def ofWords : List (List Char) → Except String (List Token)
  | [] => .ok []
  | w :: rest =>
    match ofWord? w with
    | none => .error (String.ofList w)
    | some t =>
      match ofWords rest with
      | .error e => .error e
      | .ok ts => .ok (t :: ts)

/-- The part of a line before its comment. -/
def uncommented (line : List Char) : List Char := line.takeWhile (· != '#')

/-- The tokens of a line, or the first word that is none. -/
def ofLine (line : List Char) : Except String (List Token) :=
  ofWords (Text.words (uncommented line))

end Token

end FrameCode.Source
