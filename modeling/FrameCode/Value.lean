import FrameCode.Numeral
import FrameCode.Text.Escape

/-!
# Values

A value is an integer, a truth value, a string or nil.  A string is kept in its stored
form, and `Value.same` compares strings by the characters they denote, so `a` and `\097`
are the same string.

`Value.print` is the literal of a value as a program writes it; `Value.output` is the text that
printing the value produces.
-/

namespace FrameCode

/-- The types of values. -/
inductive ValueType where
  | int
  | bool
  | string
  | nil
  deriving DecidableEq, Repr

namespace ValueType

/-- All types. -/
def all : List ValueType := [.int, .bool, .string, .nil]

/-- The name of a type in a program. -/
def name : ValueType → String
  | int => "int"
  | bool => "bool"
  | string => "string"
  | nil => "nil"

/-- The type with the given name. -/
def ofName? (s : String) : Option ValueType := all.find? (·.name == s)

/-- The types that can be read from the input. -/
def readable (t : ValueType) : Bool := t != nil

end ValueType

/-- Values; a string is in stored form. -/
inductive Value where
  | int (n : Int64)
  | bool (b : Bool)
  | str (stored : String)
  | nil
  deriving DecidableEq, Repr

namespace Value

/-- The type of a value. -/
def type : Value → ValueType
  | int _ => .int
  | bool _ => .bool
  | str _ => .string
  | nil => .nil

/-- The value that a failed read of a type yields. -/
def default : ValueType → Value
  | .int => int 0
  | .bool => bool false
  | .string => str ""
  | .nil => nil

/-! ## Strings and their characters -/

/-- The characters that a stored text denotes. -/
def chars (stored : String) : List Char := Text.Escape.decode stored.toList

/-- The string value with the given characters. -/
def ofChars (cs : List Char) : Value := str (String.ofList (Text.Escape.encode cs))

/-- The string value of a plain text. -/
def ofText (s : String) : Value := ofChars s.toList

/-- Equality of values, with strings compared by their characters. -/
def same : Value → Value → Bool
  | int x, int y => x == y
  | bool x, bool y => x == y
  | str x, str y => chars x == chars y
  | nil, nil => true
  | _, _ => false

/-- The value with a string in the stored form that `encode` gives it. -/
def canonical : Value → Value
  | str stored => ofChars (chars stored)
  | v => v

/-! ## Printed forms -/

/-- The name of a truth value. -/
def boolName (b : Bool) : String := if b then "true" else "false"

/-- The value as a literal of a program. -/
def print : Value → String
  | int n => "int@" ++ Numeral.print n
  | bool b => "bool@" ++ boolName b
  | str stored => "string@" ++ stored
  | nil => "nil@nil"

/-- The text that printing the value produces: nothing for nil, and the characters of a string. -/
def output : Value → String
  | int n => Numeral.print n
  | bool b => boolName b
  | str stored => String.ofList (chars stored)
  | nil => ""

end Value

end FrameCode
