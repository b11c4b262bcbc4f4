import FrameCode.Text.Blank

/-!
# Stored text

A string literal is stored in the form in which it is written in a program: a backslash and
exactly three decimal digits stand for the character with that code, every other character stands
for itself.  `decode` gives the characters a stored text denotes and `encode` a stored text that
denotes given characters.

Codes up to 999 can be written, so `encode` writes the blanks, the control characters, `#` and the
backslash below that bound by their codes, and leaves all else as it is.
-/

namespace FrameCode.Text.Escape

/-! ## Reading a code -/

/-- The character that three decimal digits name. -/
def charOfDigits (a b c : Char) : Char :=
  Char.ofNat (Nat.ofDigitChars 10 [a, b, c] 0)

/-- The text starts with three decimal digits. -/
def startsWithCode : List Char → Bool
  | a :: b :: c :: _ => a.isDigit && b.isDigit && c.isDigit
  | _ => false

/-- The characters a stored text denotes. -/
def decode : List Char → List Char
  | [] => []
  | '\\' :: a :: b :: c :: rest =>
    if a.isDigit && b.isDigit && c.isDigit then charOfDigits a b c :: decode rest
    else '\\' :: decode (a :: b :: c :: rest)
  | c :: rest => c :: decode rest

/-- Every backslash starts a complete code. -/
def wellFormed : List Char → Bool
  | [] => true
  | c :: rest => (c != '\\' || startsWithCode rest) && wellFormed rest

/-! ## Writing a code -/

/-- The control characters: the Unicode category Cc. -/
def isControl (c : Char) : Bool := c.toNat < 0x20 || (0x7F ≤ c.toNat && c.toNat < 0xA0)

/-- The characters that are written by their codes. -/
def needsCode (c : Char) : Bool :=
  c.toNat ≤ 999 && (c.toNat ≤ 32 || isBlank c || isControl c || c == '#' || c == '\\')

/-- The code `n` with a backslash and three digits. -/
def code (n : Nat) : List Char :=
  ['\\', (n / 100).digitChar, (n / 10 % 10).digitChar, (n % 10).digitChar]

/-- The stored form of one character. -/
def encodeChar (c : Char) : List Char := if needsCode c then code c.toNat else [c]

/-- A stored text that denotes the given characters. -/
def encode (cs : List Char) : List Char := cs.flatMap encodeChar

end FrameCode.Text.Escape
