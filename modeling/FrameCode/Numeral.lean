/-!
# Numerals

Integers are 64-bit words.  Their numerals have an optional sign, then an optional `0x` or `0o`
for hexadecimal or octal digits, then the digits.  `literal?` reads a numeral that has to be
complete and in range; `lenient` reads the longest run of digits there is and stops at the bounds.
`decimal?` and `natural?` read plain decimal numerals, with and without a minus sign.

The readers of complete numerals compute the exact value in the integers first and look at its
range last.  `lenient` counts with `saturating`, which never goes beyond the magnitude of the
least word, so its numbers stay small however many digits there are.
-/

namespace FrameCode.Numeral

/-! ## Parts of a numeral -/

/-- The sign, `true` for minus, and what follows it. -/
def sign : List Char → Bool × List Char
  | '-' :: cs => (true, cs)
  | '+' :: cs => (false, cs)
  | cs => (false, cs)

/-- The base that a mark announces, and what follows the mark. -/
def base : List Char → Nat × List Char
  | '0' :: 'x' :: cs => (16, cs)
  | '0' :: 'X' :: cs => (16, cs)
  | '0' :: 'o' :: cs => (8, cs)
  | '0' :: 'O' :: cs => (8, cs)
  | cs => (10, cs)

/-- The value of a character as a digit up to `f`. -/
def hexDigit? (c : Char) : Option Nat :=
  if '0' ≤ c ∧ c ≤ '9' then some (c.toNat - '0'.toNat)
  else if 'a' ≤ c ∧ c ≤ 'f' then some (c.toNat - 'a'.toNat + 10)
  else if 'A' ≤ c ∧ c ≤ 'F' then some (c.toNat - 'A'.toNat + 10)
  else none

/-- The value of a character as a digit of base `b`. -/
def digit? (b : Nat) (c : Char) : Option Nat := (hexDigit? c).filter (· < b)

/-- The character is a digit of base `b`. -/
def isDigit (b : Nat) (c : Char) : Bool := (digit? b c).isSome

/-- The text is one or more digits of base `b`. -/
def areDigits (b : Nat) (cs : List Char) : Bool := !cs.isEmpty && cs.all (isDigit b)

/-- The number that digits of base `b` stand for. -/
def magnitude (b : Nat) (cs : List Char) : Nat :=
  cs.foldl (fun n c => n * b + (digit? b c).getD 0) 0

/-- The greatest magnitude of a word, which is that of the least one. -/
def greatest : Nat := 0x8000000000000000

/-- The number that digits of base `b` stand for after others that stand for `n`, up to the first
character that is no digit.  It stays at `greatest` once it gets there. -/
def saturating (b n : Nat) : List Char → Nat
  | [] => n
  | c :: cs =>
    match digit? b c with
    | some d => saturating b (min (n * b + d) greatest) cs
    | none => n

/-- The integer with a sign and a magnitude. -/
def signed (negative : Bool) (n : Nat) : Int := if negative then -n else n

/-! ## The range of the words -/

/-- The integer is a word. -/
def inRange (n : Int) : Bool := -0x8000000000000000 ≤ n && n < 0x8000000000000000

/-- The word with the given value, if there is one. -/
def word? (n : Int) : Option Int64 := if inRange n then some (Int64.ofInt n) else none

/-- The word nearest to an integer. -/
def nearest (n : Int) : Int64 :=
  Int64.ofInt (max (-0x8000000000000000) (min n 0x7fffffffffffffff))

/-! ## Readers -/

/-- Reads a complete numeral of any base. -/
def literal? (cs : List Char) : Option Int64 :=
  let (negative, cs) := sign cs
  let (b, digits) := base cs
  if areDigits b digits then word? (signed negative (magnitude b digits)) else none

/-- Reads as many digits as there are; no digit at all is zero. -/
def lenient (cs : List Char) : Int64 :=
  let (negative, cs) := sign cs
  let (b, digits) := base cs
  nearest (signed negative (saturating b 0 digits))

/-- Reads a complete decimal numeral. -/
def decimal? (cs : List Char) : Option Int64 :=
  let (negative, digits) := sign cs
  if areDigits 10 digits then word? (signed negative (magnitude 10 digits)) else none

/-- Reads a complete decimal numeral without a minus sign, of a number below `limit`. -/
def natural? (limit : Nat) (cs : List Char) : Option Nat :=
  let digits := if cs.head? = some '+' then cs.tail else cs
  let n := magnitude 10 digits
  if areDigits 10 digits && n < limit then some n else none

/-! ## Printer -/

/-- The decimal numeral of a word. -/
def print (n : Int64) : String := n.toInt.repr

end FrameCode.Numeral
