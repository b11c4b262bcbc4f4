import FrameCode.Fault

/-!
# Operations on values

What the opcodes compute from values, without any state.  Integers wrap around at 64 bits, and
strings are taken as the sequences of characters they denote: their length, their order and their
positions count characters, not the codes they are written with.

An operation that can fail takes the order number of the instruction it is for, and its faults
carry that number.
-/

namespace FrameCode.Operation

/-! ## Integers and truth values -/

/-- Sums, differences, products and truncating quotients. -/
def arithmetic (order : Nat) (op : Opcode) : Value → Value → Except Fault Value
  | .int x, .int y =>
    match op with
    | .add => .ok (.int (x + y))
    | .sub => .ok (.int (x - y))
    | .mul => .ok (.int (x * y))
    | .idiv => if y = 0 then .error ⟨order, .divisionByZero⟩ else .ok (.int (x / y))
    | _ => .error ⟨order, .typeMismatch op⟩
  | _, _ => .error ⟨order, .typeMismatch op⟩

/-- Conjunction and disjunction. -/
def logic (order : Nat) : Opcode → Value → Value → Except Fault Value
  | .and, .bool x, .bool y => .ok (.bool (x && y))
  | .or, .bool x, .bool y => .ok (.bool (x || y))
  | op, _, _ => .error ⟨order, .typeMismatch op⟩

/-- Negation. -/
def not (order : Nat) : Value → Except Fault Value
  | .bool x => .ok (.bool !x)
  | _ => .error ⟨order, .typeMismatch .not⟩

/-! ## Comparison -/

/-- The order of two values of one type other than nil. -/
def compare (order : Nat) (op : Opcode) : Value → Value → Except Fault Ordering
  | .int x, .int y => .ok (Ord.compare x y)
  | .bool x, .bool y => .ok (Ord.compare x y)
  | .str x, .str y => .ok (Ord.compare (Value.chars x) (Value.chars y))
  | _, _ => .error ⟨order, .typeMismatch op⟩

/-- Equality of values of one type, or with nil. -/
def equals (order : Nat) (a b : Value) : Except Fault Bool :=
  if a.type = .nil ∨ b.type = .nil ∨ a.type = b.type then .ok (a.same b)
  else .error ⟨order, .typeMismatch .eq⟩

/-- Equality of values of one type. -/
def jumpEquals (order : Nat) (op : Opcode) (a b : Value) : Except Fault Bool :=
  if a.type = b.type then .ok (a.same b) else .error ⟨order, .typeMismatch op⟩

/-! ## Strings -/

/-- The string with the character of a code up to 255. -/
def charOfCode (order : Nat) : Value → Except Fault Value
  | .int n =>
    if 0 ≤ n ∧ n ≤ 255 then
      .ok (.str (String.ofList (Text.Escape.code n.toInt.toNat)))
    else .error ⟨order, .charCodeOutOfRange n⟩
  | _ => .error ⟨order, .typeMismatch .int2char⟩

/-- The characters before a position, the character there and those after it. -/
structure Focus where
  before : List Char
  char : Char
  after : List Char

/-- The characters of a string around a position counted from 0. -/
def focus (order : Nat) (op : Opcode) : Value → Value → Except Fault Focus
  | .str s, .int i =>
    let cs := Value.chars s
    if 0 ≤ i then
      match cs.drop i.toInt.toNat with
      | c :: after => .ok ⟨cs.take i.toInt.toNat, c, after⟩
      | [] => .error ⟨order, .indexOutOfRange i cs.length⟩
    else .error ⟨order, .indexOutOfRange i cs.length⟩
  | _, _ => .error ⟨order, .typeMismatch op⟩

/-- The code of the character at a position. -/
def codeAt (order : Nat) (text index : Value) : Except Fault Value :=
  (focus order .stri2int text index).map fun f => .int (Int64.ofNat f.char.toNat)

/-- The string with the character at a position. -/
def charAt (order : Nat) (text index : Value) : Except Fault Value :=
  (focus order .getchar text index).map fun f => .ofChars [f.char]

/-- The string with the first character of `replacement` at a position. -/
def setChar (order : Nat) (text index replacement : Value) : Except Fault Value :=
  match replacement with
  | .str s =>
    match focus order .setchar text index with
    | .error e => .error e
    | .ok f =>
      match Value.chars s with
      | [] => .error ⟨order, .emptyReplacement⟩
      | c :: _ => .ok (.ofChars (f.before ++ c :: f.after))
  | _ => .error ⟨order, .typeMismatch .setchar⟩

/-- One stored text after the other. -/
def concat (order : Nat) : Value → Value → Except Fault Value
  | .str x, .str y => .ok (.str (x ++ y))
  | _, _ => .error ⟨order, .typeMismatch .concat⟩

/-- The number of characters. -/
def length (order : Nat) : Value → Except Fault Value
  | .str s => .ok (.int (Int64.ofNat (Value.chars s).length))
  | _ => .error ⟨order, .typeMismatch .strlen⟩

/-! ## Types and exit codes -/

/-- The name of the type of a value, empty for a variable without content. -/
def typeName : Option Value → Value
  | some v => .str v.type.name
  | none => .str ""

/-- The exit code that a value names. -/
def exitCode (order : Nat) : Value → Except Fault (Fin 10)
  | .int n =>
    if range : 0 ≤ n.toInt ∧ n.toInt < 10 then .ok ⟨n.toInt.toNat, by omega⟩
    else .error ⟨order, .exitCodeOutOfRange n⟩
  | _ => .error ⟨order, .typeMismatch .exit⟩

end FrameCode.Operation
