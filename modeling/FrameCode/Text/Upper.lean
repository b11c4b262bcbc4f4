import FrameCode.Text.UpperTable

/-!
# Letter case

`upper` is the full Unicode upper-case mapping, in which a character may become several.
Comparisons that ignore the case of ASCII letters only go through `foldCase`.
-/

namespace FrameCode.Text

/-- The upper-case form of one character. -/
def upperChar (c : Char) : List Char :=
  if c.toNat < 0x80 then [c.toUpper]
  else
    match upperSequences.lookup c.toNat with
    | some codes => codes.map Char.ofNat
    | none =>
      match upperRuns.find? (·.holds c.toNat) with
      | some run => [Char.ofNat (c.toNat + run.shift).toNat]
      | none => [c]

/-- The upper-case form of a text. -/
def upper (cs : List Char) : List Char := cs.flatMap upperChar

/-- The text with its ASCII letters in upper case. -/
def foldCase (s : String) : String := String.ofList (s.toList.map Char.toUpper)

end FrameCode.Text
